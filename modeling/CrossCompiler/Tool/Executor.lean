import CrossCompiler.Action
import CrossCompiler.Tool.Execution

/-!
# Executors

An executor runs commands.  It may change files and its own state, and it answers with an
execution or a fault.  Two executors are here: one plays back a script, and one wraps
another to report every run.
-/

namespace CrossCompiler

/-- Runs a command given by its name and arguments. -/
abbrev Executor (σ : Type) := List Bytes → Action σ Answer

/-- One outcome of a script: the files it writes and removes, and its answer. -/
structure Reply where
  writes : List (Bytes × Bytes)
  removes : List Bytes
  answer : Answer

namespace Reply

/-- A tool that succeeds and does nothing. -/
def quiet : Reply := ⟨[], [], .ok ⟨.exited 0, [], []⟩⟩

/-- What a reply does to the files.  A file that cannot be written is left out. -/
def apply (r : Reply) (files : FileTree) : FileTree :=
  let written := r.writes.foldl
    (fun files (path, content) => (files.write path content).toOption.getD files) files
  r.removes.foldl FileTree.removeAll written

end Reply

/-- The replies still to be given, and the commands run so far. -/
structure Script where
  pending : List Reply
  calls : List (List Bytes)

/-- Answers commands from a script, one reply for each; at its end tools succeed quietly. -/
def scripted : Executor Script := fun args files script =>
  let reply := script.pending.headD .quiet
  ⟨reply.answer, reply.apply files, ⟨script.pending.tail, script.calls ++ [args]⟩, []⟩

/-- The entries about the end of a run. -/
def endEntries (line : Bytes) : Answer → List Log.Entry
  | .error fault =>
    [Log.entry .error "Execution failure"
      [("command", .text line), ("error", .text fault.message)]]
  | .ok execution =>
    let level : Log.Level := if execution.isSuccess then .info else .error
    (if execution.isSuccess then []
      else [Log.entry .error "Execution failure" [("command", .text line)]]) ++
      [Log.entry level "status" [("status", .text execution.status)],
        Log.entry level "stdout" [("stdout", .text execution.stdout)],
        Log.entry level "stderr" [("stderr", .text execution.stderr)]]

/-- Reports every command and how it ended; the answer is passed on as it is. -/
def logged {σ : Type} (inner : Executor σ) : Executor σ := fun args => do
  let line := Bytes.join (text " ") args
  Action.report (Log.entry .info "Executing" [("command", .text line)])
  let answer ← inner args
  Action.reportAll (endEntries line answer)
  return answer

end CrossCompiler
