import CrossCompiler.Action

/-!
# How programs end

A program tells its caller by an exit code what came of it.  Whatever a command did, its end is
reported once, as the last entry of its log: as an error with its message, or as an ordinary end.
-/

namespace CrossCompiler

/-- How a program ended. -/
inductive ExitCode where
  /-- The work was done. -/
  | ok
  /-- The command line asked for nothing that could be done. -/
  | usage
  /-- The input was read and found faulty. -/
  | dataError
  /-- Something that was needed could not be had. -/
  | unavailable
  deriving DecidableEq

namespace ExitCode

def all : List ExitCode := [.ok, .usage, .dataError, .unavailable]

def number : ExitCode → Int
  | .ok => 0
  | .usage => 64
  | .dataError => 65
  | .unavailable => 69

def name : ExitCode → Bytes
  | .ok => text "ok"
  | .usage => text "usage"
  | .dataError => text "data error"
  | .unavailable => text "unavailable"

/-- The name of the code with a given number. -/
def describe (n : Int) : Bytes :=
  match all.find? fun code => code.number = n with
  | some code => code.name
  | none => text "unknown"

end ExitCode

namespace CommandLine

/-- The version of the programs. -/
def version : String := "0.1.0"

/-- What came of a command: its exit code, what it printed, and the message of the error
that ended it. -/
structure Result where
  code : ExitCode
  stdout : Bytes := []
  problem : Option Bytes := none

namespace Result

/-- A command that printed something and did nothing else. -/
def printed (stdout : Bytes) : Result := ⟨.usage, stdout, none⟩

/-- A command line that could not be followed. -/
def rejected (problem : Bytes) : Result := ⟨.usage, [], some problem⟩

end Result

/-- Reports the end of a command; `idle` tells that it was not asked to do its main work. -/
def reportEnd {σ : Type} (result : Result) (idle : Option Log.Entry) : Action σ Unit :=
  match result.problem with
  | some problem =>
    .report (Log.entry .error "Exiting with error"
      [("error", .text problem), ("status", .text result.code.name)])
  | none =>
    .reportAll
      (idle.toList ++ [Log.entry .debug "Exiting" [("status", .text result.code.name)]])

end CommandLine
end CrossCompiler
