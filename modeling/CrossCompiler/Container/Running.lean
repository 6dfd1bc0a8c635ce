import CrossCompiler.Container.Daemon
import CrossCompiler.Tool.Executor

/-!
# Running tools in containers

Every command gets a container of its own, which is removed again whatever happened in
between.  The end of the container is asked for before it is started, so that a fast tool
is not missed; a tool that outlives its time is stopped.
-/

namespace CrossCompiler
namespace Container

/-- Writes down a request. -/
def ask (asked : Asked) : Action Daemon Unit :=
  .onTools fun daemon => ((), ⟨daemon.link, daemon.pending, daemon.asked ++ [asked]⟩)

/-- Takes the behaviour of the next container. -/
def nextBehaviour : Action Daemon Behaviour :=
  .onTools fun daemon =>
    (daemon.pending.headD .quiet, ⟨daemon.link, daemon.pending.tail, daemon.asked⟩)

/-- Reports that a request about a container failed. -/
def complain (message : String) (b : Behaviour) (reply : List Bytes) : Action Daemon Unit :=
  .report (Log.entry .warn message [("id", .text b.id), ("error", .text (chain reply))])

/-- Stops a tool that does not end by itself. -/
def enforceTime (b : Behaviour) (command : Bytes) : Action Daemon Unit :=
  if b.untilKilled then do
    ask (.stop b.id)
    match b.stopComplaint with
    | some complaint => complain "failed to stop container" b (passedOn complaint)
    | none => pure ()
    .report (Log.entry .warn "tool timed out" [("command", .text command)])
  else pure ()

/-- Collects what the tool wrote. -/
def collect (b : Behaviour) (ended : Ended) : Action Daemon Execution := do
  let output := demultiplex b.stream
  match output.problem with
  | some problem => complain "failed to copy container output" b [problem]
  | none => pure ()
  let ending : Ending :=
    if b.untilKilled then .signalled (text "SIGKILL") else .exited ended.statusCode
  return ⟨ending, Utf8.repair output.stdout, Utf8.repair output.stderr⟩

/-- Waits for the end of a started container. -/
def await (b : Behaviour) (command : Bytes) : Action Daemon Answer := do
  enforceTime b command
  match b.ended with
  | .error reply => return .error (.notAwaited command reply)
  | .ok ended =>
    match ended.error with
    | some message => return .error (.failedInside command message)
    | none =>
      let execution ← collect b ended
      return .ok execution

/-- Runs a command in a container that has been created. -/
def runCreated (b : Behaviour) (command : Bytes) : Action Daemon Answer := do
  ask (.attach b.id)
  match b.attachComplaint with
  | some _ => return .error (.spawn command (.notAttached notUpgraded))
  | none =>
    ask (.wait b.id)
    ask (.start b.id)
    match b.startComplaint with
    | some complaint => return .error (.spawn command (.notStarted (passedOn complaint)))
    | none => await b command

/-- Removes a container; a failure is reported and nothing more. -/
def discard (b : Behaviour) : Action Daemon Unit := do
  ask (.remove b.id true)
  match b.removeComplaint with
  | some complaint => complain "failed to remove container" b (passedOn complaint)
  | none => pure ()

/-- Runs a command in a new container of a daemon that listens. -/
def runIn (config : Config) (command : Bytes) (args : List Bytes) : Action Daemon Answer := do
  ask (.create (config.request args))
  let b ← nextBehaviour
  match b.createComplaint with
  | some complaint =>
    return .error (.spawn command (.notCreated config.image (passedOn complaint)))
  | none =>
    .report (Log.entry .debug "container created"
      [("id", .text b.id), ("image", .text config.image)])
    let answer ← runCreated b command
    discard b
    return answer

/-- Runs each command in a container of its own. -/
def executor (config : Config) : Executor Daemon := fun args => do
  match splitCommand args with
  | .error fault => return .error fault
  | .ok (command, _) =>
    let link ← .onTools fun daemon => (daemon.link, daemon)
    match link with
    | .scripted => runIn config command args
    | .address host =>
      if isAddress host then
        return .error (.spawn command (.notCreated config.image (unreachable host)))
      else return .error (.spawn command (.badHost host))

end Container
end CrossCompiler
