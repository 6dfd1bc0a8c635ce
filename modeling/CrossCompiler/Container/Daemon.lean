import CrossCompiler.Container.Config
import CrossCompiler.Container.Stream
import CrossCompiler.Json.Reader
import CrossCompiler.Text.Case
import CrossCompiler.Text.Printable

/-!
# The container daemon

The daemon answers requests about containers.  Here it follows a script: each container it
is asked for behaves as the next behaviour says, and every request is written down.
-/

namespace CrossCompiler
namespace Container

/-- How a container behaves and what the daemon answers about it.  A complaint, where there
is one, is the answer to that request. -/
structure Behaviour where
  id : Bytes
  createComplaint : Option Bytes := none
  attachComplaint : Option Bytes := none
  waitComplaint : Option Bytes := none
  startComplaint : Option Bytes := none
  stopComplaint : Option Bytes := none
  removeComplaint : Option Bytes := none
  /-- What the tool writes, as the stream of frames that is sent. -/
  stream : Bytes := []
  statusCode : Int := 0
  /-- The error the container ends with. -/
  exitError : Option Bytes := none
  /-- What the daemon sends about the end instead of a well-formed answer. -/
  waitBody : Option Bytes := none
  /-- The tool ends only when it is stopped. -/
  untilKilled : Bool := false

/-- A container that runs a quiet tool. -/
def Behaviour.quiet : Behaviour := { id := text "c0" }

/-- What the daemon was asked.  Every request but the first is about the container of an id. -/
inductive Asked where
  | create (request : Request)
  | attach (id : Bytes)
  | wait (id : Bytes)
  | start (id : Bytes)
  | stop (id : Bytes)
  /-- `force` asks for it whether the container still runs or not. -/
  | remove (id : Bytes) (force : Bool)

/-- How the daemon is reached. -/
inductive Link where
  /-- A daemon that follows a script. -/
  | scripted
  /-- An address at which no daemon listens. -/
  | address (host : Bytes)

/-- The state of the daemon. -/
structure Daemon where
  link : Link
  pending : List Behaviour
  asked : List Asked

/-- The text without white space at either end. -/
def trimSpace (s : Bytes) : Bytes :=
  let isBlank : Symbol → Bool
    | .char c => isSpace c
    | .stray _ => false
  let front := (Utf8.symbols s).dropWhile isBlank
  ((front.reverse.dropWhile isBlank).reverse).flatMap Symbol.bytes

/-- A complaint as it is passed on, in parts. -/
def passedOn (complaint : Bytes) : List Bytes :=
  [text "Error response from daemon", trimSpace complaint]

/-- What is passed on when output cannot be attached. -/
def notUpgraded : List Bytes := [text "unable to upgrade to tcp, received 500"]

/-- The address used when none is given. -/
def standardHost : Bytes := text "unix:///var/run/docker.sock"

/-- The parts of a text around the first occurrence of a mark. -/
def cutAt (mark : Bytes) : Bytes → Option (Bytes × Bytes)
  | [] => none
  | b :: rest =>
    if mark.isPrefixOf (b :: rest) then some ([], (b :: rest).drop mark.length)
    else (cutAt mark rest).map fun (before, after) => (b :: before, after)

/-- Whether a text is an address: a scheme and a place around `://`. -/
def isAddress (host : Bytes) : Bool :=
  match cutAt (text "://") host with
  | some (scheme, place) => scheme ≠ [] && place ≠ []
  | none => false

/-- The complaint when no daemon listens. -/
def unreachable (host : Bytes) : List Bytes :=
  [text "Cannot connect to the Docker daemon at " ++ host ++
    text ". Is the docker daemon running?"]

/-- How a container ended: its status code, and its error if it has one. -/
structure Ended where
  statusCode : Int
  error : Option Bytes
  deriving DecidableEq

/-- The integer of a JSON number that is written without fraction and exponent and fits into
64 bits. -/
def integer? (literal : List Char) : Option Int :=
  let (negative, digits) :=
    match literal with
    | '-' :: digits => (true, digits)
    | digits => (false, digits)
  if digits.all fun c => '0' ≤ c && c ≤ '9' then
    let size : Nat := digits.foldl (fun value c => 10 * value + (c.toNat - 48)) 0
    let value : Int := if negative then -size else size
    if Int64.minValue.toInt ≤ value ∧ value ≤ Int64.maxValue.toInt then some value else none
  else none

/-- Reads the members of an error; other members are passed over. -/
def readError : (message : Bytes) → List (List Char × Json.Value) → Option Bytes
  | message, [] => some message
  | message, (name, value) :: rest =>
    if Case.isName (text "Message") (Utf8.encode name) then
      match value with
      | .null => readError message rest
      | .string s => readError (Utf8.encode s) rest
      | _ => none
    else readError message rest

/-- Reads the members of an answer about the end; other members are passed over. -/
def readEnded : Ended → List (List Char × Json.Value) → Option Ended
  | ended, [] => some ended
  | ended, (name, value) :: rest =>
    if Case.isName (text "StatusCode") (Utf8.encode name) then
      match value with
      | .null => readEnded ended rest
      | .number literal =>
        match integer? literal with
        | some n => readEnded ⟨n, ended.error⟩ rest
        | none => none
      | _ => none
    else if Case.isName (text "Error") (Utf8.encode name) then
      match value with
      | .null => readEnded ⟨ended.statusCode, none⟩ rest
      | .object members =>
        match readError (ended.error.getD []) members with
        | some message => readEnded ⟨ended.statusCode, some message⟩ rest
        | none => none
      | _ => none
    else readEnded ended rest

/-- The answer about the end of a container, from the body that was sent. -/
def parseEnded? (body : Bytes) : Option Ended :=
  match Json.readFirst body with
  | .ok .null => some ⟨0, none⟩
  | .ok (.object members) => readEnded ⟨0, none⟩ members
  | _ => none

/-- What is learnt about the end of a container, or the complaint instead, in parts. -/
def Behaviour.ended (b : Behaviour) : Except (List Bytes) Ended :=
  match b.waitComplaint, b.waitBody with
  | some complaint, _ => .error (passedOn complaint)
  | none, some body =>
    match parseEnded? body with
    | some ended => .ok ended
    | none => .error [body]
  | none, none => .ok ⟨b.statusCode, b.exitError⟩

end Container
end CrossCompiler
