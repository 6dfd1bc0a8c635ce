import CrossCompiler.Text.Symbol
import CrossCompiler.Tool.Executor

/-!
# Commands on the host

Commands run as child processes.  What a child wrote is repaired where it is not valid
UTF-8, and a signal is given by its name.  A command whose name holds no slash is looked
up among the installed tools; any other is a file to run, which no file in a source tree is.
-/

namespace CrossCompiler
namespace Host

/-- How a child ended. -/
inductive Exit where
  | code (n : Int)
  | signal (n : Nat)

/-- What a child wrote and how it ended. -/
structure Child where
  stdout : Bytes
  stderr : Bytes
  exit : Exit

/-- The names of the signals from 1 on. -/
def signalNames : List String :=
  ["SIGHUP", "SIGINT", "SIGQUIT", "SIGILL", "SIGTRAP", "SIGABRT", "SIGBUS", "SIGFPE", "SIGKILL",
   "SIGUSR1", "SIGSEGV", "SIGUSR2", "SIGPIPE", "SIGALRM", "SIGTERM", "SIGSTKFLT", "SIGCHLD",
   "SIGCONT", "SIGSTOP", "SIGTSTP", "SIGTTIN", "SIGTTOU", "SIGURG", "SIGXCPU", "SIGXFSZ",
   "SIGVTALRM", "SIGPROF", "SIGWINCH", "SIGIO", "SIGPWR", "SIGSYS"]

/-- The name of a signal; one without a name is known by its number. -/
def signalName (n : Nat) : Bytes :=
  match n with
  | 0 => text "signal 0"
  | k + 1 =>
    match signalNames[k]? with
    | some name => text name
    | none => text "signal " ++ Bytes.digits n

/-- What is seen of a child. -/
def observe (child : Child) : Execution :=
  let ending : Ending :=
    match child.exit with
    | .code n => .exited n
    | .signal n => .signalled (signalName n)
  ⟨ending, Utf8.repair child.stdout, Utf8.repair child.stderr⟩

/-- An installed tool: what it does with its arguments and the files. -/
abbrev Installed := List Bytes → FileTree → Child

/-- Copies the named files to its output.  It has no options but the one without effect, and
complains about each file it cannot read. -/
def concatenate : Installed := fun args files =>
  let options := args.filter fun arg => arg.head? = some (ascii '-') && arg ≠ text "-"
  match options.find? fun option => option ≠ text "-u" && option ≠ text "--" with
  | some option =>
    let complaint :=
      if (text "--").isPrefixOf option then text "unrecognized option '" ++ option ++ text "'"
      else text "invalid option -- '" ++ (option.drop 1).take 1 ++ text "'"
    ⟨[], text "cat: " ++ complaint ++ text "\nTry 'cat --help' for more information.\n", .code 1⟩
  | none =>
    let complaint (path : Bytes) (reason : FileTree.Reason) : Bytes :=
      let words :=
        match reason with
        | .missing => text "No such file or directory"
        | .isDirectory => text "Is a directory"
        | .notDirectory => text "Not a directory"
        | .nameTooLong => text "File name too long"
        | .damaged => text "Input/output error"
        | other => other.message
      text "cat: " ++ path ++ text ": " ++ words ++ text "\n"
    let sources := args.filter fun arg => !options.contains arg && arg ≠ text "-"
    let results := sources.map fun path => (path, files.read path)
    let out := results.flatMap fun (_, result) => result.toOption.getD []
    let err := results.flatMap fun (path, result) =>
      match result with
      | .ok _ => []
      | .error fault => complaint path fault.reason
    ⟨out, err, .code (if err = [] then 0 else 1)⟩

/-- Whether an argument is a cluster of the options of `echo`. -/
def isEchoOption (arg : Bytes) : Bool :=
  match arg with
  | dash :: letter :: letters =>
    dash = ascii '-' && (letter :: letters).all fun b => b ∈ text "neE"
  | _ => false

/-- Writes its arguments on one line; the option `-n` in front leaves out the end of the
line. -/
def echo : Installed := fun args _ =>
  let options := args.takeWhile isEchoOption
  let line := Bytes.join (text " ") (args.dropWhile isEchoOption)
  if options.any fun option => ascii 'n' ∈ option then ⟨line, [], .code 0⟩
  else ⟨line ++ text "\n", [], .code 0⟩

/-- The installed tool of a name. -/
def installed? (name : Bytes) : Option Installed :=
  if name = text "true" then some fun _ _ => ⟨[], [], .code 0⟩
  else if name = text "false" then some fun _ _ => ⟨[], [], .code 1⟩
  else if name = text "echo" then some echo
  else if name = text "cat" then some concatenate
  else none

/-- Why a file cannot be run as a command. -/
def refusal (files : FileTree) (path : Bytes) : SpawnCause :=
  match files.find path with
  | .ok _ => .notExecutable path
  | .error reason => .unreachable path reason

/-- What comes of a command, given the files. -/
def answer (files : FileTree) (args : List Bytes) : Answer :=
  match splitCommand args with
  | .error fault => .error fault
  | .ok (name, arguments) =>
    if name = [] then .error (.spawn name .unnamed)
    else if Path.slash ∈ name then .error (.spawn name (refusal files name))
    else
      match installed? name with
      | none => .error (.spawn name (.notInstalled name))
      | some tool => .ok (observe (tool arguments files))

/-- Runs commands as child processes. -/
def executor {σ : Type} : Executor σ := fun args => Action.inspect fun files => answer files args

end Host
end CrossCompiler
