import CrossCompiler.Bytes

/-!
# Paths

Paths are byte strings whose elements are separated by slashes.  The operations here look
at the text of a path only; no file has to exist.
-/

namespace CrossCompiler
namespace Path

/-- The byte between the elements of a path. -/
def slash : UInt8 := ascii '/'

/-- The byte in front of an extension. -/
def dot : UInt8 := ascii '.'

/-- Whether a path begins at the root. -/
def isRooted (p : Bytes) : Bool := p.head? = some slash

/-- What follows the last slash. -/
def final (p : Bytes) : Bytes := (p.reverse.takeWhile (· ≠ slash)).reverse

/-- The path up to and including its last slash. -/
def parentText (p : Bytes) : Bytes := (p.reverse.dropWhile (· ≠ slash)).reverse

/-- The path without the slashes at its end. -/
def trimSlashes (p : Bytes) : Bytes := (p.reverse.dropWhile (· = slash)).reverse

/-- The last element of a path: a single dot for the empty path and a slash for a path of
slashes only. -/
def base (p : Bytes) : Bytes :=
  if p = [] then [dot]
  else if trimSlashes p = [] then [slash]
  else final (trimSlashes p)

/-- The last dot of the last element with everything behind it, or nothing. -/
def extension (p : Bytes) : Bytes :=
  if dot ∈ final p then dot :: ((final p).reverse.takeWhile (· ≠ dot)).reverse else []

/-- The path without a given end, if it has that end. -/
def trimSuffix (suffix p : Bytes) : Bytes :=
  if suffix.isSuffixOf p then p.take (p.length - suffix.length) else p

/-- The elements that carry meaning: neither empty nor a single dot. -/
def elements (p : Bytes) : List Bytes :=
  (Bytes.split slash p).filter fun e => e ≠ [] && e ≠ [dot]

/-- The element that names the directory above. -/
def up : Bytes := [dot, dot]

/-- Adds an element to a resolved path, given in reverse.  Going up cancels the last
element; at the root it stays there, and otherwise what cannot be cancelled is kept. -/
def push (rooted : Bool) (reversed : List Bytes) (element : Bytes) : List Bytes :=
  if element = up then
    match reversed with
    | [] => if rooted then [] else [up]
    | last :: rest => if last = up then up :: last :: rest else rest
  else element :: reversed

/-- The shortest path of the same meaning, as far as its text tells. -/
def clean (p : Bytes) : Bytes :=
  let rooted := isRooted p
  let resolved := ((elements p).foldl (push rooted) []).reverse
  let joined := Bytes.join [slash] resolved
  if rooted then slash :: joined
  else if resolved = [] then [dot] else joined

/-- The directory that holds the last element. -/
def directory (p : Bytes) : Bytes := clean (parentText p)

/-- The path seen from the root, given the working directory. -/
def absolute (workingDirectory p : Bytes) : Bytes :=
  if isRooted p then clean p else clean (workingDirectory ++ slash :: p)

end Path
end CrossCompiler
