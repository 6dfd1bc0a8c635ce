import CrossCompiler.Text.Case
import CrossCompiler.Text.Quoted

/-!
# Log entries

What a program reports about its work, as data: a level, a message and named values.  A
program always reports everything; the level chosen by the user decides what is shown.
-/

namespace CrossCompiler
namespace Log

/-- How serious an entry is, in increasing order. -/
inductive Level where
  | debug
  | info
  | warn
  | error
  | dpanic
  | panic
  | fatal
  deriving DecidableEq

namespace Level

def all : List Level := [.debug, .info, .warn, .error, .dpanic, .panic, .fatal]

def rank : Level → Nat
  | .debug => 0
  | .info => 1
  | .warn => 2
  | .error => 3
  | .dpanic => 4
  | .panic => 5
  | .fatal => 6

def name : Level → String
  | .debug => "debug"
  | .info => "info"
  | .warn => "warn"
  | .error => "error"
  | .dpanic => "dpanic"
  | .panic => "panic"
  | .fatal => "fatal"

/-- Whether entries of a level are shown when `threshold` is chosen. -/
def isShown (threshold level : Level) : Bool := threshold.rank ≤ level.rank

/-- The level when none is chosen. -/
def defaultName : Bytes := text "info"

/-- The level of a name, in any case; the empty name is the default level. -/
def parse? (s : Bytes) : Option Level :=
  if s = [] then some .info else all.find? fun level => Case.lowered s = level.name.toList

/-- The complaint about a name that belongs to no level. -/
def unknownMessage (s : Bytes) : Bytes :=
  text "invalid RCC_LOG: unrecognized level: " ++ quote s

end Level

/-- A value inside a record. -/
inductive Scalar where
  | text (s : Bytes)
  | number (n : Int)
  | flag (b : Bool)
  deriving DecidableEq

/-- The value of a field. -/
inductive Value where
  | text (s : Bytes)
  | number (n : Int)
  | record (members : List (String × Scalar))
  /-- A measured time.  What a clock showed is no part of the report. -/
  | elapsed
  deriving DecidableEq

/-- One report. -/
structure Entry where
  level : Level
  message : Bytes
  fields : List (Bytes × Value)
  deriving DecidableEq

/-- An entry whose fields are all named in the program. -/
def entry (level : Level) (message : String) (fields : List (String × Value)) : Entry :=
  ⟨level, CrossCompiler.text message,
    fields.map fun (name, value) => (CrossCompiler.text name, value)⟩

end Log
end CrossCompiler
