import CrossCompiler.Container.Running
import CrossCompiler.Proofs.Action

/-!
# No container is left behind

A command is run in a container that is made for it, attached to, waited for, started and
removed.  Whatever the daemon answers on the way, a container that was made is removed, once and
last of all, and nothing comes of a failed removal but a line in the log.  What the command
comes to is decided by the first thing that fails.  The end of the container is asked for before
the start, but a failure to tell it is noticed only after the start.
-/

namespace CrossCompiler
namespace Container

/-!
## What a run is expected to do
-/

/-- The points at which a run can fail. -/
inductive Hurdle where
  | create
  | attach
  | start
  | wait
  deriving DecidableEq

/-- The order in which the hurdles come. -/
def Hurdle.rank : Hurdle → Nat
  | .create => 0
  | .attach => 1
  | .start => 2
  | .wait => 3

namespace Behaviour

/-- A container fails at a hurdle if the daemon complains.  It also fails in the end if it ends
with an error of its own. -/
def FailsAt (b : Behaviour) : Hurdle → Prop
  | .create => b.createComplaint ≠ none
  | .attach => b.attachComplaint ≠ none
  | .start => b.startComplaint ≠ none
  | .wait => ∀ code, b.ended ≠ .ok ⟨code, none⟩

/-- The hurdle is the first one at which the container fails. -/
def FirstFailure (b : Behaviour) (hurdle : Hurdle) : Prop :=
  b.FailsAt hurdle ∧ ∀ earlier : Hurdle, earlier.rank < hurdle.rank → ¬ b.FailsAt earlier

/-- The run of a tool whose container ended with a status code.  A tool that had to be stopped
has none. -/
def execution (b : Behaviour) (code : Int) : Execution where
  ending := if b.untilKilled then .signalled (text "SIGKILL") else .exited code
  stdout := Utf8.repair (demultiplex b.stream).stdout
  stderr := Utf8.repair (demultiplex b.stream).stderr

end Behaviour

/-- What a command comes to. -/
inductive Verdict (b : Behaviour) (image command : Bytes) : Answer → Prop
  | notCreated {reply : List Bytes} (first : b.FirstFailure .create) :
      Verdict b image command (.error (.spawn command (.notCreated image reply)))
  | notAttached {reply : List Bytes} (first : b.FirstFailure .attach) :
      Verdict b image command (.error (.spawn command (.notAttached reply)))
  | notStarted {reply : List Bytes} (first : b.FirstFailure .start) :
      Verdict b image command (.error (.spawn command (.notStarted reply)))
  | notAwaited {reply : List Bytes} (first : b.FirstFailure .wait)
      (ended : b.ended = .error reply) :
      Verdict b image command (.error (.notAwaited command reply))
  | failedInside {code : Int} {message : Bytes} (first : b.FirstFailure .wait)
      (ended : b.ended = .ok ⟨code, some message⟩) :
      Verdict b image command (.error (.failedInside command message))
  | done {code : Int} (clear : ∀ hurdle, ¬ b.FailsAt hurdle) (ended : b.ended = .ok ⟨code, none⟩) :
      Verdict b image command (.ok (b.execution code))

/-- The requests about a container that neither make it nor remove it. -/
inductive Keeps (id : Bytes) : Asked → Prop
  | attach : Keeps id (.attach id)
  | wait : Keeps id (.wait id)
  | start : Keeps id (.start id)
  | stop : Keeps id (.stop id)

/-- What is reported of a removal. -/
def removalReport (id : Bytes) : Option Bytes → List Log.Entry
  | none => []
  | some complaint =>
    [Log.entry .warn "failed to remove container"
      [("id", .text id), ("error", .text (chain (passedOn complaint)))]]

/-- The daemon with another answer to the removal of its next container. -/
def Daemon.removing (d : Daemon) (complaint : Option Bytes) : Daemon :=
  ⟨d.link, { d.pending.headD .quiet with removeComplaint := complaint } :: d.pending.tail, d.asked⟩

/-!
## Actions that only ask
-/

/-- The daemon after some more requests. -/
def Daemon.after (d : Daemon) (requests : List Asked) : Daemon :=
  ⟨d.link, d.pending, d.asked ++ requests⟩

variable {α β : Type}

/-- Whatever state it meets, an action gives one value, makes one list of requests and one
report, and leaves the files alone. -/
def Does (a : Action Daemon α) (value : α) (requests : List Asked) (log : List Log.Entry) : Prop :=
  ∀ files daemon, a files daemon = ⟨value, files, daemon.after requests, log⟩

theorem Daemon.after_nil (d : Daemon) : d.after [] = d := by
  rw [after, List.append_nil]

theorem Daemon.after_after (d : Daemon) (first second : List Asked) :
    (d.after first).after second = d.after (first ++ second) := by
  rw [after, after, after, List.append_assoc]

theorem Does.pure (a : α) : Does (Pure.pure a) a [] [] := by
  intro files daemon
  rw [Daemon.after_nil]
  rfl

theorem Does.report (e : Log.Entry) : Does (Action.report e) () [] [e] := by
  intro files daemon
  rw [Daemon.after_nil]
  rfl

theorem does_ask (asked : Asked) : Does (ask asked) () [asked] [] := fun _ _ => rfl

theorem Does.bind {first : Action Daemon α} {next : α → Action Daemon β} {a : α} {b : β}
    {requests requests' : List Asked} {log log' : List Log.Entry}
    (hfirst : Does first a requests log) (hnext : Does (next a) b requests' log') :
    Does (first >>= next) b (requests ++ requests') (log ++ log') := by
  intro files daemon
  rw [Action.bind_of_eq _ _ files daemon (hfirst files daemon), hnext, Daemon.after_after]

/-!
## A container that has been made
-/

theorem Behaviour.failsAt_wait_of_error {b : Behaviour} {reply : List Bytes}
    (h : b.ended = .error reply) : b.FailsAt .wait := by
  intro code hended
  rw [h] at hended
  cases hended

theorem Behaviour.failsAt_wait_of_message {b : Behaviour} {code : Int} {message : Bytes}
    (h : b.ended = .ok ⟨code, some message⟩) : b.FailsAt .wait := by
  intro code hended
  rw [h] at hended
  cases hended

theorem Behaviour.not_failsAt_wait {b : Behaviour} {code : Int} (h : b.ended = .ok ⟨code, none⟩) :
    ¬ b.FailsAt .wait :=
  fun hfails => hfails code h

theorem does_enforceTime (b : Behaviour) (command : Bytes) : ∃ requests log,
    Does (enforceTime b command) () requests log ∧ ∀ asked ∈ requests, Keeps b.id asked := by
  have hkeeps : ∀ asked ∈ [Asked.stop b.id], Keeps b.id asked := by
    intro asked hasked
    obtain rfl := List.mem_singleton.1 hasked
    exact .stop
  unfold enforceTime
  split_ifs
  · cases b.stopComplaint with
    | none => exact ⟨_, _, (does_ask _).bind (.report _), hkeeps⟩
    | some complaint => exact ⟨_, _, (does_ask _).bind ((Does.report _).bind (.report _)), hkeeps⟩
  · exact ⟨_, _, .pure (), nofun⟩

theorem does_collect (b : Behaviour) (code : Int) : ∃ log,
    Does (collect b ⟨code, none⟩) (b.execution code) [] log := by
  unfold collect
  dsimp only
  cases (demultiplex b.stream).problem with
  | none => exact ⟨_, .pure _⟩
  | some problem => exact ⟨_, (Does.report _).bind (.pure _)⟩

/-- Once a container has been started, only its end counts. -/
theorem does_await {b : Behaviour} (hearlier : ∀ earlier, earlier ≠ .wait → ¬ b.FailsAt earlier)
    (image command : Bytes) : ∃ answer requests log,
      Does (await b command) answer requests log ∧ (∀ asked ∈ requests, Keeps b.id asked) ∧
        Verdict b image command answer := by
  have hfirst : b.FailsAt .wait → b.FirstFailure .wait := fun hfails =>
    ⟨hfails, fun earlier hrank => hearlier earlier fun heq => by simp [heq] at hrank⟩
  obtain ⟨requests, log, htime, hkeeps⟩ := does_enforceTime b command
  unfold await
  cases hended : b.ended with
  | error reply =>
      refine ⟨_, _, _, htime.bind (.pure _), by simpa using hkeeps, ?_⟩
      exact .notAwaited (hfirst (Behaviour.failsAt_wait_of_error hended)) hended
  | ok ended =>
      obtain ⟨code, error⟩ := ended
      cases error with
      | some message =>
          refine ⟨_, _, _, htime.bind (.pure _), by simpa using hkeeps, ?_⟩
          exact .failedInside (hfirst (Behaviour.failsAt_wait_of_message hended)) hended
      | none =>
          obtain ⟨collected, hcollect⟩ := does_collect b code
          refine ⟨_, _, _, htime.bind (hcollect.bind (.pure _)), by simpa using hkeeps, ?_⟩
          refine .done (fun hurdle => ?_) hended
          by_cases hwait : hurdle = .wait
          · exact hwait ▸ Behaviour.not_failsAt_wait hended
          · exact hearlier hurdle hwait

/-- A container that has been made is kept until its command has come to something.  Its end is
asked for before it is started. -/
theorem does_runCreated {b : Behaviour} (hcreate : ¬ b.FailsAt .create) (image command : Bytes) :
    ∃ answer middle log, Does (runCreated b command) answer middle log ∧
      (∀ asked ∈ middle, Keeps b.id asked) ∧
      (¬ b.FailsAt .attach → [.attach b.id, .wait b.id, .start b.id] <+: middle) ∧
      Verdict b image command answer := by
  unfold runCreated
  cases hattach : b.attachComplaint with
  | some complaint =>
      have hfails : b.FailsAt .attach := by simp [Behaviour.FailsAt, hattach]
      refine ⟨_, _, _, (does_ask _).bind (.pure _), ?_, fun hnot => absurd hfails hnot,
        .notAttached ⟨hfails, ?_⟩⟩
      · simpa using Keeps.attach
      · intro earlier hrank
        cases earlier with
        | create => exact hcreate
        | attach | start | wait => exact absurd hrank (by decide)
  | none =>
      have hattached : ¬ b.FailsAt .attach := fun hfails => hfails hattach
      cases hstart : b.startComplaint with
      | some complaint =>
          have hfails : b.FailsAt .start := by simp [Behaviour.FailsAt, hstart]
          refine ⟨_, _, _,
            (does_ask _).bind ((does_ask _).bind ((does_ask _).bind (.pure _))), ?_,
            fun _ => List.prefix_append _ _, .notStarted ⟨hfails, ?_⟩⟩
          · simpa using ⟨Keeps.attach, Keeps.wait, Keeps.start⟩
          · intro earlier hrank
            cases earlier with
            | create => exact hcreate
            | attach => exact hattached
            | start | wait => exact absurd hrank (by decide)
      | none =>
          have hstarted : ¬ b.FailsAt .start := fun hfails => hfails hstart
          have hearlier : ∀ earlier, earlier ≠ .wait → ¬ b.FailsAt earlier := by
            intro earlier hne
            cases earlier with
            | create => exact hcreate
            | attach => exact hattached
            | start => exact hstarted
            | wait => exact absurd rfl hne
          obtain ⟨answer, requests, log, hawait, hkeeps, hverdict⟩ :=
            does_await hearlier image command
          refine ⟨answer, _, _,
            (does_ask _).bind ((does_ask _).bind ((does_ask _).bind hawait)), ?_,
            fun _ => List.prefix_append _ requests, hverdict⟩
          simpa using ⟨Keeps.attach, Keeps.wait, Keeps.start, hkeeps⟩

theorem does_discard (b : Behaviour) :
    Does (discard b) () [.remove b.id true] (removalReport b.id b.removeComplaint) := by
  unfold discard
  cases b.removeComplaint with
  | none => exact (does_ask _).bind (.pure ())
  | some complaint => exact (does_ask _).bind (.report _)

/-!
## Whole runs
-/

/-- The report on a container that has been made. -/
def creationReport (config : Config) (b : Behaviour) : Log.Entry :=
  Log.entry .debug "container created" [("id", .text b.id), ("image", .text config.image)]

/-- The next container, once it has been asked for. -/
theorem nextBehaviour_after (files : FileTree) (daemon : Daemon) (requests : List Asked) :
    nextBehaviour files (daemon.after requests) =
      ⟨daemon.pending.headD .quiet, files,
        ⟨daemon.link, daemon.pending.tail, daemon.asked ++ requests⟩, []⟩ := rfl

theorem runIn_of_failsAt_create {daemon : Daemon}
    (h : (daemon.pending.headD .quiet).FailsAt .create) (config : Config) (command : Bytes)
    (args : List Bytes) (files : FileTree) :
    ∃ reply, runIn config command args files daemon =
      ⟨.error (.spawn command (.notCreated config.image reply)), files,
        ⟨daemon.link, daemon.pending.tail,
          daemon.asked ++ [.create (config.request args)]⟩, []⟩ := by
  obtain ⟨complaint, hcomplaint⟩ := Option.ne_none_iff_exists'.1 h
  refine ⟨passedOn complaint, ?_⟩
  rw [runIn, Action.bind_of_eq _ _ files daemon (does_ask _ files daemon),
    Action.bind_of_eq _ _ files _ (nextBehaviour_after files daemon _)]
  simp only [hcomplaint, Action.pure_apply, List.append_nil]

/-- A container that was made is removed when its command has come to something. -/
theorem runIn_of_created {daemon : Daemon} {b : Behaviour}
    (hnext : daemon.pending.headD .quiet = b) (h : ¬ b.FailsAt .create) (config : Config)
    {command : Bytes} {answer : Answer} {middle : List Asked} {log : List Log.Entry}
    (hrun : Does (runCreated b command) answer middle log) (args : List Bytes) (files : FileTree) :
    runIn config command args files daemon =
      ⟨answer, files,
        ⟨daemon.link, daemon.pending.tail,
          daemon.asked ++ (.create (config.request args) :: middle ++ [.remove b.id true])⟩,
        creationReport config b :: log ++ removalReport b.id b.removeComplaint⟩ := by
  have hcreated : b.createComplaint = none := not_not.1 h
  have hrest : Does (do
      Action.report (creationReport config b)
      let answer ← runCreated b command
      discard b
      return answer) answer ([] ++ (middle ++ ([.remove b.id true] ++ [])))
      ([creationReport config b] ++ (log ++ (removalReport b.id b.removeComplaint ++ []))) :=
    (Does.report _).bind (hrun.bind ((does_discard b).bind (.pure answer)))
  rw [runIn, Action.bind_of_eq _ _ files daemon (does_ask _ files daemon),
    Action.bind_of_eq _ _ files _ (nextBehaviour_after files daemon _), hnext]
  simp only [hcreated]
  rw [← creationReport, hrest]
  simp [Daemon.after]

theorem executor_of_scripted {daemon : Daemon} (h : daemon.link = .scripted) (config : Config)
    (command : Bytes) (rest : List Bytes) (files : FileTree) :
    executor config (command :: rest) files daemon =
      runIn config command (command :: rest) files daemon := by
  obtain ⟨link, pending, asked⟩ := daemon
  subst h
  rfl

theorem executor_of_address {daemon : Daemon} {host : Bytes} (h : daemon.link = .address host)
    (config : Config) (command : Bytes) (rest : List Bytes) (files : FileTree) :
    ∃ cause, executor config (command :: rest) files daemon =
      ⟨.error (.spawn command cause), files, daemon, []⟩ := by
  obtain ⟨link, pending, asked⟩ := daemon
  subst h
  have hlink : (Action.onTools fun daemon : Daemon => (daemon.link, daemon)) files
      ⟨.address host, pending, asked⟩ =
        ⟨.address host, files, ⟨.address host, pending, asked⟩, []⟩ :=
    rfl
  simp only [executor, splitCommand]
  rw [Action.bind_of_eq _ _ files _ hlink]
  by_cases haddress : isAddress host = true
  · exact ⟨.notCreated config.image (unreachable host), by simp [haddress]⟩
  · exact ⟨.badHost host, by simp [haddress]⟩

/-- All that a run owes to the removal of its container is the end of its log. -/
theorem executor_of_created {b : Behaviour} (hcreate : ¬ b.FailsAt .create) (config : Config)
    {command : Bytes} {answer : Answer} {middle : List Asked} {log : List Log.Entry}
    (hrun : Does (runCreated b command) answer middle log) (rest : List Bytes) (files : FileTree)
    (daemon : Daemon) (hlink : daemon.link = .scripted) {complaint : Option Bytes}
    (hnext : daemon.pending.headD .quiet = { b with removeComplaint := complaint }) :
    executor config (command :: rest) files daemon =
      ⟨answer, files,
        ⟨daemon.link, daemon.pending.tail, daemon.asked ++
          (.create (config.request (command :: rest)) :: middle ++ [.remove b.id true])⟩,
        creationReport config b :: log ++ removalReport b.id complaint⟩ := by
  rw [executor_of_scripted hlink]
  -- Up to the removal, a container behaves the same whatever the answer to the removal is.
  exact runIn_of_created hnext hcreate config hrun (command :: rest) files

/-- A command that is not empty gets a container.  If none can be made, nothing more is asked of
the daemon.  If one is made, then on every path the last request, and no other, removes it by
force; a failure of that is reported at the end of the log and changes nothing else.  The first
failure on the way to the end of the container decides what the command comes to, and a failed
start comes before a failure to wait, although the end has been asked for by then. -/
theorem executor_removes_container (config : Config) (args : List Bytes) (files : FileTree)
    (daemon : Daemon) :
    let run := executor config args files daemon
    let b := daemon.pending.headD .quiet
    ∃ requests, run.tools.asked = daemon.asked ++ requests ∧
      (args = [] → run.value = .error .emptyCommand ∧ requests = []) ∧
      ∀ command rest, args = command :: rest →
        (∀ host, daemon.link = .address host →
          requests = [] ∧ ∃ cause, run.value = .error (.spawn command cause)) ∧
        (daemon.link = .scripted →
          Verdict b config.image command run.value ∧
          (b.FailsAt .create → requests = [.create (config.request args)]) ∧
          (¬ b.FailsAt .create →
            (∃ middle, requests = .create (config.request args) :: middle ++ [.remove b.id true] ∧
              (∀ asked ∈ middle, Keeps b.id asked) ∧
              (¬ b.FailsAt .attach → [.attach b.id, .wait b.id, .start b.id] <+: middle)) ∧
            ∃ log, run.log = log ++ removalReport b.id b.removeComplaint ∧
              ∀ complaint, executor config args files (daemon.removing complaint) =
                ⟨run.value, run.files, run.tools, log ++ removalReport b.id complaint⟩)) := by
  intro run b
  cases args with
  | nil => exact ⟨[], (List.append_nil _).symm, fun _ => ⟨rfl, rfl⟩, nofun⟩
  | cons command rest =>
      cases hlink : daemon.link with
      | address host =>
          obtain ⟨cause, hrun⟩ := executor_of_address hlink config command rest files
          refine ⟨[], ?_, nofun, ?_⟩
          · simp only [run, hrun, List.append_nil]
          · rintro _ _ ⟨⟩
            exact ⟨fun _ _ => ⟨rfl, cause, congrArg Step.value hrun⟩, nofun⟩
      | scripted =>
          by_cases hcreate : b.FailsAt .create
          · obtain ⟨reply, hrun⟩ := runIn_of_failsAt_create hcreate config command
              (command :: rest) files
            rw [← executor_of_scripted hlink] at hrun
            refine ⟨[.create (config.request (command :: rest))], ?_, nofun, ?_⟩
            · simp only [run, hrun]
            · rintro _ _ ⟨⟩
              refine ⟨nofun, fun _ => ⟨?_, fun _ => rfl, fun hnot => absurd hcreate hnot⟩⟩
              simp only [run, hrun]
              exact .notCreated ⟨hcreate, fun earlier hrank => absurd hrank (Nat.not_lt_zero _)⟩
          · obtain ⟨answer, middle, log, hdoes, hkeeps, horder, hverdict⟩ :=
              does_runCreated hcreate config.image command
            have hrun : run = ⟨answer, files,
                ⟨daemon.link, daemon.pending.tail, daemon.asked ++
                  (.create (config.request (command :: rest)) :: middle ++ [.remove b.id true])⟩,
                creationReport config b :: log ++ removalReport b.id b.removeComplaint⟩ :=
              executor_of_created hcreate config hdoes rest files daemon hlink rfl
            rw [hrun]
            refine ⟨_, rfl, nofun, ?_⟩
            rintro _ _ ⟨⟩
            refine ⟨nofun, fun _ => ⟨hverdict, fun hfails => absurd hfails hcreate, fun _ => ?_⟩⟩
            refine ⟨⟨middle, rfl, hkeeps, horder⟩, creationReport config b :: log, rfl, ?_⟩
            intro complaint
            exact executor_of_created hcreate config hdoes rest files
              (daemon.removing complaint) hlink rfl

end Container
end CrossCompiler
