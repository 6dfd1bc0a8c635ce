import CrossCompiler.Path

/-!
# Files

A file tree holds all files there are, from the root on, and knows the directory in which a
program works.  A rooted path is followed from the root and any other path from that directory.
Looking at a path, reading, writing and removing are functions on trees, and each failure carries
its reason.  Paths are followed element by element, so a missing directory is noticed before
anything behind it.  Only the shape of the tree and the state of a file can stand in the way: the
program may do everything else.
-/

namespace CrossCompiler

/-- What stands at a place of a tree.  A damaged file is there and can be opened, but its content
is out of reach: it cannot be read, and writing to it fails, at once or, if the failure is late,
when it is closed. -/
inductive Entry where
  | file (content : Bytes)
  | directory
  | damaged (late : Bool)
  deriving DecidableEq

/-- A tree of files: the place of the working directory and each place with what stands there.
The root is always a directory and is not listed. -/
structure FileTree where
  home : List Bytes
  entries : List (List Bytes × Entry)

/-- Why an operation on a path fails. -/
inductive FileTree.Reason where
  | missing
  | isDirectory
  | notDirectory
  | notEmpty
  | nameTooLong
  | invalid
  | busy
  | damaged
  deriving DecidableEq

/-- The wording of a reason. -/
def FileTree.Reason.message : FileTree.Reason → Bytes
  | .missing => text "no such file or directory"
  | .isDirectory => text "is a directory"
  | .notDirectory => text "not a directory"
  | .notEmpty => text "directory not empty"
  | .nameTooLong => text "file name too long"
  | .invalid => text "invalid argument"
  | .busy => text "device or resource busy"
  | .damaged => text "input/output error"

/-- What was attempted on a path. -/
inductive FileTree.Attempt where
  | opening
  | reading
  | writing
  | closing
  | examining
  | removing
  deriving DecidableEq

def FileTree.Attempt.word : FileTree.Attempt → Bytes
  | .opening => text "open"
  | .reading => text "read"
  | .writing => text "write"
  | .closing => text "close"
  | .examining => text "stat"
  | .removing => text "remove"

/-- A failed attempt on a path. -/
structure FileTree.Fault where
  attempt : FileTree.Attempt
  path : Bytes
  reason : FileTree.Reason
  deriving DecidableEq

/-- `attempt path: reason`. -/
def FileTree.Fault.message (f : FileTree.Fault) : Bytes :=
  f.attempt.word ++ text " " ++ f.path ++ text ": " ++ f.reason.message

namespace FileTree

/-- A place in a tree: the names that lead to it from the root. -/
abbrev Place := List Bytes

/-- The tree with nothing in it, in which the root is the working directory. -/
def empty : FileTree := ⟨[], []⟩

/-- What stands at a place of the tree. -/
def lookup? (t : FileTree) (place : Place) : Option Entry :=
  if place = [] then some .directory
  else (t.entries.find? fun entry => entry.1 = place).map Prod.snd

/-- The tree with nothing at one place. -/
def erase (t : FileTree) (place : Place) : FileTree :=
  ⟨t.home, t.entries.filter fun entry => entry.1 ≠ place⟩

/-- The tree with an entry at one place. -/
def put (t : FileTree) (place : Place) (entry : Entry) : FileTree :=
  ⟨t.home, (t.erase place).entries ++ [(place, entry)]⟩

/-- The tree without a place and all below it. -/
def prune (t : FileTree) (place : Place) : FileTree :=
  ⟨t.home, t.entries.filter fun entry => !place.isPrefixOf entry.1⟩

/-- Whether something stands below a place. -/
def hasChildren (t : FileTree) (place : Place) : Bool :=
  t.entries.any fun entry => place.isPrefixOf entry.1 && entry.1 ≠ place

/-- The longest name of a path element. -/
def nameLimit : Nat := 255

/-- The longest path. -/
def pathLimit : Nat := 4095

/-- Follows one element from a directory.  Nothing is above the root but the root. -/
def step (t : FileTree) (place : Place) (name : Bytes) : Except Reason (Place × Entry) :=
  if nameLimit < name.length then .error .nameTooLong
  else if name = [Path.dot] then .ok (place, .directory)
  else if name = Path.up then .ok (place.dropLast, .directory)
  else
    match t.lookup? (place ++ [name]) with
    | none => .error .missing
    | some entry => .ok (place ++ [name], entry)

/-- Follows elements from a place; every element but the last has to be a directory. -/
def walk (t : FileTree) : Place × Entry → List Bytes → Except Reason (Place × Entry)
  | found, [] => .ok found
  | (place, .directory), name :: rest =>
    match t.step place name with
    | .error reason => .error reason
    | .ok found => t.walk found rest
  | (_, .file _), _ :: _ => .error .notDirectory
  | (_, .damaged _), _ :: _ => .error .notDirectory

/-- Where a path begins. -/
def origin (t : FileTree) (path : Bytes) : Place := if Path.isRooted path then [] else t.home

/-- The names on a path. -/
def names (path : Bytes) : List Bytes := (Bytes.split Path.slash path).filter (· ≠ [])

/-- The elements of a path as they are followed.  A slash at the end asks for a directory,
as a final dot does. -/
def route (path : Bytes) : List Bytes :=
  names path ++ if path.getLast? = some Path.slash then [[Path.dot]] else []

/-- Paths that are refused before any of their elements is looked at. -/
def refusal? (path : Bytes) : Option Reason :=
  if path = [] then some .missing
  else if (0 : UInt8) ∈ path then some .invalid
  else if pathLimit < path.length then some .nameTooLong
  else none

/-- The place and entry a path leads to. -/
def find (t : FileTree) (path : Bytes) : Except Reason (Place × Entry) :=
  match refusal? path with
  | some reason => .error reason
  | none => t.walk (t.origin path, .directory) (route path)

/-- What stands at a path. -/
def stat (t : FileTree) (path : Bytes) : Except Fault Entry :=
  match t.find path with
  | .ok (_, entry) => .ok entry
  | .error reason => .error ⟨.examining, path, reason⟩

/-- The content of a file.  A directory and a damaged file can be opened, but not read. -/
def read (t : FileTree) (path : Bytes) : Except Fault Bytes :=
  match t.find path with
  | .ok (_, .file content) => .ok content
  | .ok (_, .directory) => .error ⟨.reading, path, .isDirectory⟩
  | .ok (_, .damaged _) => .error ⟨.reading, path, .damaged⟩
  | .error reason => .error ⟨.opening, path, reason⟩

/-- The place of a name below a directory, if a file can be opened there for writing.  Nothing
can be made in a working directory that is gone. -/
def landing (t : FileTree) (place : Place) (name : Bytes) : Except Reason Place :=
  match t.step place name with
  | .ok (_, .directory) => .error .isDirectory
  | .ok (found, _) => .ok found
  | .error .missing =>
    if t.lookup? place = some .directory then .ok (place ++ [name]) else .error .missing
  | .error reason => .error reason

/-- The place where a file can be opened for writing.  A slash at the end asks for a directory,
so nothing can be written there; what stands there is not even looked at. -/
def target (t : FileTree) (path : Bytes) : Except Reason Place :=
  match refusal? path with
  | some reason => .error reason
  | none =>
    match t.walk (t.origin path, .directory) (names path).dropLast with
    | .ok (place, .directory) =>
      if path.getLast? = some Path.slash then .error .isDirectory
      else t.landing place ((names path).getLast?.getD [Path.dot])
    | .ok _ => .error .notDirectory
    | .error reason => .error reason

/-- The tree after a file has been written: it is made if it is missing and replaced if it
is there, unless it is damaged. -/
def write (t : FileTree) (path content : Bytes) : Except Fault FileTree :=
  match t.target path with
  | .error reason => .error ⟨.opening, path, reason⟩
  | .ok place =>
    match t.lookup? place with
    | some (.damaged late) => .error ⟨if late then .closing else .writing, path, .damaged⟩
    | _ => .ok (t.put place (.file content))

/-- The tree after a file or an empty directory has been removed. -/
def remove (t : FileTree) (path : Bytes) : Except Fault FileTree :=
  match t.find path with
  | .error reason => .error ⟨.removing, path, reason⟩
  | .ok (place, .directory) =>
    let last := (names path).getLast?
    if last = none then .error ⟨.removing, path, .busy⟩
    else if last = some [Path.dot] then .error ⟨.removing, path, .invalid⟩
    else if last = some Path.up || t.hasChildren place then .error ⟨.removing, path, .notEmpty⟩
    else .ok (t.erase place)
  | .ok (place, _) => .ok (t.erase place)

/-- The tree after whatever a path leads to has been removed, with all below it.  The root
stays, and so does a directory that is named by final dots. -/
def removeAll (t : FileTree) (path : Bytes) : FileTree :=
  match t.find path with
  | .error _ => t
  | .ok (place, _) =>
    if place = [] ∨ Path.final path = [Path.dot] ∨ Path.final path = Path.up then t
    else t.prune place

/-- Makes a directory, with the ones above it. -/
def makeDirectory (t : FileTree) (place : Place) : FileTree :=
  ((List.range (place.length + 1)).map fun n => place.take n).foldl
    (fun t place => if (t.lookup? place).isSome then t else t.put place .directory) t

/-- Adds a file, with the directories it needs; a path that ends in a slash is a directory. -/
def add (t : FileTree) (path content : Bytes) : FileTree :=
  let place := t.origin path ++ Path.elements path
  if path.getLast? = some Path.slash then t.makeDirectory place
  else (t.makeDirectory place.dropLast).put place (.file content)

/-- The tree of some files, with a working directory from which their paths lead to them. -/
def ofList (files : List (Bytes × Bytes)) (home : Place := []) : FileTree :=
  files.foldl (fun t file => t.add file.1 file.2) (makeDirectory ⟨home, []⟩ home)

/-- What stands below the working directory: the path of every file, with its content unless it
is damaged, and of every directory, ending in a slash. -/
def toList (t : FileTree) : List (Bytes × Option Bytes) :=
  (t.entries.filter fun entry => t.home.isPrefixOf entry.1 && entry.1 ≠ t.home).map fun entry =>
    let path := Bytes.join [Path.slash] (entry.1.drop t.home.length)
    match entry.2 with
    | .file content => (path, some content)
    | .damaged _ => (path, none)
    | .directory => (path ++ [Path.slash], none)

/-- The rooted path of the working directory. -/
def workDirectory (t : FileTree) : Bytes := Path.slash :: Bytes.join [Path.slash] t.home

end FileTree
end CrossCompiler
