import CrossCompiler.FileTree
import CrossCompiler.Text.Quoted

/-!
# Outcomes of tool runs

A tool that ran ended in some way and left its output.  A tool that did not run at all is
a fault, with its cause.  A tool that fails is no fault: that it ran is what counts.
-/

namespace CrossCompiler

/-- How a process ended. -/
inductive Ending where
  | exited (code : Int)
  | signalled (signal : Bytes)
  | abnormal
  deriving DecidableEq

/-- A run of a tool: how it ended and what it wrote. -/
structure Execution where
  ending : Ending
  stdout : Bytes
  stderr : Bytes
  deriving DecidableEq

namespace Execution

/-- The exit code, if the tool ended by itself. -/
def code? (e : Execution) : Option Int :=
  match e.ending with
  | .exited code => some code
  | _ => none

/-- The signal that ended the tool, empty if there is none. -/
def signal (e : Execution) : Bytes :=
  match e.ending with
  | .signalled signal => signal
  | _ => []

/-- Whether the tool ended by itself with exit code zero. -/
def isSuccess (e : Execution) : Bool := e.ending = .exited 0

/-- How the tool ended, in words. -/
def status (e : Execution) : Bytes :=
  match e.ending with
  | .exited code => text "exit status: " ++ Bytes.decimal code
  | .signalled signal => text "signal: " ++ signal
  | .abnormal => text "terminated abnormally"

end Execution

/-- Why a command could not be started. -/
inductive SpawnCause where
  /-- The command has an empty name. -/
  | unnamed
  /-- No tool of that name is installed. -/
  | notInstalled (name : Bytes)
  /-- The path of the command leads to nothing. -/
  | unreachable (path : Bytes) (reason : FileTree.Reason)
  /-- What stands at the path of the command must not be run. -/
  | notExecutable (path : Bytes)
  /-- The address of the container daemon makes no sense. -/
  | badHost (host : Bytes)
  /-- No container was made; the reply of the daemon is given in parts. -/
  | notCreated (image : Bytes) (reply : List Bytes)
  | notAttached (reply : List Bytes)
  | notStarted (reply : List Bytes)
  /-- A cause in the words of whoever tried. -/
  | described (message : Bytes)
  deriving DecidableEq

def SpawnCause.message : SpawnCause → Bytes
  | .unnamed => text "exec: no command"
  | .notInstalled name => text "exec: " ++ quote name ++ text ": executable file not found in $PATH"
  | .unreachable path reason => text "fork/exec " ++ path ++ text ": " ++ reason.message
  | .notExecutable path => text "fork/exec " ++ path ++ text ": permission denied"
  | .badHost host =>
    text "failed to create docker client: unable to parse docker host `" ++ host ++ text "`"
  | .notCreated image reply =>
    brief ((text "failed to create container from image " ++ inset image) :: reply)
  | .notAttached reply => brief (text "failed to attach container" :: reply)
  | .notStarted reply => brief (text "failed to start container" :: reply)
  | .described message => message

/-- Why a run gave no execution. -/
inductive RunFault where
  /-- There was no command. -/
  | emptyCommand
  /-- The command could not be started. -/
  | spawn (command : Bytes) (cause : SpawnCause)
  /-- A container was started, but its end could not be awaited. -/
  | notAwaited (command : Bytes) (reply : List Bytes)
  /-- A container was started and ended with an error of its own. -/
  | failedInside (command complaint : Bytes)
  /-- A fault in the words of whoever ran the tool. -/
  | described (message : Bytes)
  deriving DecidableEq

namespace RunFault

/-- What is said of a container whose end could not be awaited. -/
def awaiting (command : Bytes) : Bytes :=
  text "failed to wait for container running '" ++ inset command ++ text "'"

/-- The wording of a fault. -/
def message : RunFault → Bytes
  | .emptyCommand => text "no command given"
  | .spawn command cause =>
    text "could not run command '" ++ command ++ text "': " ++ cause.message
  | .notAwaited command reply => chain (awaiting command :: reply)
  | .failedInside command complaint =>
    text "container running '" ++ inset command ++ text "' failed: " ++ inset complaint
  | .described message => message

/-- The wording of a fault inside another message. -/
def briefMessage : RunFault → Bytes
  | .notAwaited command reply => brief (awaiting command :: reply)
  | fault => fault.message

end RunFault

/-- What comes of running a command. -/
abbrev Answer := Except RunFault Execution

/-- The name of a command and its arguments. -/
def splitCommand : List Bytes → Except RunFault (Bytes × List Bytes)
  | [] => .error .emptyCommand
  | name :: arguments => .ok (name, arguments)

end CrossCompiler
