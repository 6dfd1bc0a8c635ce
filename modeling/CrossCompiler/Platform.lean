import CrossCompiler.Text.Case
import CrossCompiler.Text.Quoted

/-!
# Target platforms

The platforms that code can be generated for.  Platforms are numbered; a number that
belongs to no platform is kept, so that it can be shown, but it has no name that could be
given on a command line.
-/

namespace CrossCompiler

/-- A platform that code is generated for. -/
inductive Platform where
  | transputer
  | epoc16
  | x86_64
  | unlisted (number : Int)
  deriving DecidableEq

namespace Platform

/-- The platforms that can be chosen. -/
def all : List Platform := [.transputer, .epoc16, .x86_64]

/-- The platform when none is chosen. -/
def default : Platform := .transputer

def isDefault (p : Platform) : Bool := p = default

def number : Platform → Int
  | .transputer => 0
  | .epoc16 => 1
  | .x86_64 => 2
  | .unlisted n => n

/-- The name of a platform. -/
def name : Platform → Bytes
  | .transputer => text "Transputer"
  | .epoc16 => text "EPOC16"
  | .x86_64 => text "X86_64"
  | .unlisted n => text "TargetPlatform(" ++ Bytes.decimal n ++ text ")"

/-- The names that can be given, separated by commas. -/
def choices : Bytes := Bytes.join (text ", ") (all.map name)

/-- What a command line calls a platform argument. -/
def argumentName : String := "architecture"

/-- The platform of a given name, in any case. -/
def parse? (s : Bytes) : Option Platform := all.find? fun p => Case.isName p.name s

/-- The complaint about a name that belongs to no platform. -/
def unknownMessage (s : Bytes) : Bytes :=
  text "invalid architecture: '" ++ inset s ++ text "' (expected one of " ++ choices ++ text ")"

/-- The platform after a name has been given for it; an unknown name changes nothing. -/
def set (p : Platform) (s : Bytes) : Platform := (parse? s).getD p

end Platform
end CrossCompiler
