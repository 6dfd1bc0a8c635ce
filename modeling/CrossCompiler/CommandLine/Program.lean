import CrossCompiler.CommandLine.Driver
import CrossCompiler.CommandLine.FrontEnd
import CrossCompiler.Log.Console

/-!
# Programs

The driver and the front end as whole programs: arguments and environment in, exit code
and console output out.
-/

namespace CrossCompiler

/-- The two programs. -/
inductive Program where
  | driver
  | frontEnd
  deriving DecidableEq

namespace Program

/-- What the programs look up in the environment; what is not there is empty. -/
structure Environment where
  logLevel : Bytes := []
  toolchain : Bytes := []
  sandboxImage : Bytes := []
  daemonHost : Bytes := []

/-- The name of the level that is asked for. -/
def Environment.level (env : Environment) : Bytes :=
  if env.logLevel = [] then Log.Level.defaultName else env.logLevel

/-- The daemon that is reached from an environment, where none listens. -/
def Environment.daemon (env : Environment) : Container.Daemon :=
  ⟨.address (if env.daemonHost = [] then Container.standardHost else env.daemonHost), [], []⟩

/-- What a program leaves. -/
structure Finished where
  code : Int
  stdout : Bytes
  stderr : Bytes
  files : FileTree

/-- Runs a program. -/
def run (p : Program) (env : Environment) (args : List Bytes) (files : FileTree) : Finished :=
  match Log.Level.parse? env.level with
  | none =>
    ⟨ExitCode.usage.number, [], Log.Level.unknownMessage env.level ++ text "\n", files⟩
  | some level =>
    match p with
    | .driver =>
      let step := Driver.run ⟨env.toolchain, env.sandboxImage⟩
        (Driver.chooseExecutor files.workDirectory 0 0) args files env.daemon
      ⟨step.value.result.code.number, step.value.result.stdout,
        Log.Console.render level step.log, step.files⟩
    | .frontEnd =>
      let step := FrontEnd.runCommand args files ()
      ⟨step.value.result.code.number, step.value.result.stdout,
        Log.Console.render level step.log, step.files⟩

end Program
end CrossCompiler
