import CrossCompiler.Compilation.Phase
import CrossCompiler.ExitCode

/-!
# The pipeline of a compilation

The phases run in order.  A tool that could not be run ends the pipeline; a tool that ran
and failed does not, since the next tool will report what it misses.
-/

namespace CrossCompiler
namespace Pipeline

/-- How far the pipeline has come. -/
inductive Stage where
  | preprocessing
  | compiling
  | assembling
  | stopped
  | done
  deriving DecidableEq

namespace Stage

def all : List Stage := [.preprocessing, .compiling, .assembling, .stopped, .done]

def name : Stage → Bytes
  | .preprocessing => text "preprocessing"
  | .compiling => text "compiling"
  | .assembling => text "assembling"
  | .stopped => text "stopped"
  | .done => text "done"

/-- The name of the stage with a given number. -/
def describe (n : Int) : Bytes :=
  match if n < 0 then none else all[n.toNat]? with
  | some stage => stage.name
  | none => text "State(" ++ Bytes.decimal n ++ text ")"

end Stage

/-- A tool that could not be run. -/
structure Failure where
  tool : Tool
  cause : RunFault
  deriving DecidableEq

def Failure.message (f : Failure) : Bytes :=
  text "could not run " ++ f.tool.name ++ text ": " ++ f.cause.briefMessage

/-- What comes of a pipeline. -/
abbrev Outcome := Except Failure Unit

/-- The exit code of a pipeline. -/
def exitCode : Outcome → ExitCode
  | .ok _ => .ok
  | .error _ => .unavailable

variable {σ : Type}

def enter (stage : Stage) : Action σ Unit :=
  .report (Log.entry .debug "pipeline state" [("state", .text stage.name)])

/-- Judges what came of a phase. -/
def judge (tool : Tool) : Answer → Action σ Outcome
  | .error cause => return .error ⟨tool, cause⟩
  | .ok execution => do
    if execution.isSuccess then
      .report (Log.entry .debug "phase ok" [("phase", .text tool.name)])
    else
      .report (Log.entry .warn "phase tool did not succeed"
        [("phase", .text tool.name), ("status", .text execution.status)])
    return .ok ()

/-- Enters a stage and runs its phase. -/
def stage (phases : Tool → Action σ Answer) (stage : Stage) (tool : Tool) : Action σ Outcome := do
  enter stage
  let answer ← phases tool
  judge tool answer

/-- Runs the phases in order, up to the first tool that cannot be run. -/
def drive (phases : Tool → Action σ Answer) (stopAfterCompile : Bool) : Action σ Outcome := do
  match ← stage phases .preprocessing .preprocessor with
  | .error failure => return .error failure
  | .ok _ =>
    match ← stage phases .compiling .compiler with
    | .error failure => return .error failure
    | .ok _ =>
      if stopAfterCompile then
        enter .stopped
        return .ok ()
      else
        match ← stage phases .assembling .assembler with
        | .error failure => return .error failure
        | .ok _ =>
          enter .done
          return .ok ()

/-- Compiles with the tools of a toolchain. -/
def compile (o : Compilation.Options) (t : Toolchain) (executor : Executor σ) :
    Action σ Outcome :=
  drive (Compilation.runPhase o t executor) o.stopAfterCompile

end Pipeline
end CrossCompiler
