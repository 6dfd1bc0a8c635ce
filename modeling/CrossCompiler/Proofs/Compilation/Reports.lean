import CrossCompiler.Container.Running
import CrossCompiler.Proofs.Compilation.Entries

/-!
# What the log tells of the tools

The log of a compilation is told by the runs of its tools.  Each run is announced, and behind it
stands how it ended, at a level that shows whether something went wrong; a tool that ran without
success is then named once by the pipeline.  All else that a compilation says by itself are notes,
none of which tells of an error.

What an executor reports about its own work stands between the announcement of a run and its end.
The counts below are about executors that do not use the words of others for that, as those that
run tools in containers do not.
-/

namespace CrossCompiler

open Compilation (Options expectedCommand)
open Pipeline (Stage Outcome)

variable {σ : Type}

/-!
## The report of a run
-/

/-- A command on one line. -/
def Call.line (call : Call) : Bytes := Bytes.join (text " ") call.command

/-- The tool could be run, and it ended by itself with exit code zero. -/
def Call.Succeeded (call : Call) : Prop :=
  ∃ execution, call.answer = .ok execution ∧ execution.code? = some 0

/-- The tool could be run, but it did not end by itself with exit code zero. -/
def Call.ranInVain (call : Call) : Bool :=
  match call.answer with
  | .error _ => false
  | .ok execution => execution.code? ≠ some 0

/-- How a tool ended and what it wrote, all at one level. -/
def outcomeEntries (level : Log.Level) (execution : Execution) : List Log.Entry :=
  [Log.entry level "status" [("status", .text (endingWords execution.ending))],
    Log.entry level "stdout" [("stdout", .text execution.stdout)],
    Log.entry level "stderr" [("stderr", .text execution.stderr)]]

/-- A command is announced. -/
def Call.announcement (call : Call) : Log.Entry :=
  Log.entry .info "Executing" [("command", .text call.line)]

theorem Call.announcement_message (call : Call) : call.announcement.message ∈ runMessages := by
  simp [announcement, Log.entry, runMessages]

/-- What is reported behind a run: one error if the tool could not be run, three pieces of
information if it succeeded, and four errors if it did not. -/
inductive RunEnd (call : Call) : List Log.Entry → Prop
  | fault {cause : RunFault} (answer : call.answer = .error cause) :
      RunEnd call [Log.entry .error "Execution failure"
        [("command", .text call.line), ("error", .text cause.message)]]
  | success {execution : Execution} (answer : call.answer = .ok execution)
      (code : execution.code? = some 0) : RunEnd call (outcomeEntries .info execution)
  | failure {execution : Execution} (answer : call.answer = .ok execution)
      (code : execution.code? ≠ some 0) :
      RunEnd call (Log.entry .error "Execution failure" [("command", .text call.line)] ::
        outcomeEntries .error execution)

theorem runEnd_iff {call : Call} {ending : List Log.Entry} :
    RunEnd call ending ↔ ending = endEntries call.line call.answer := by
  constructor
  · intro h
    cases h with
    | fault answer => rw [answer, endEntries]
    | success answer code =>
        simp [answer, endEntries, Pipeline.isSuccess_iff.2 code, outcomeEntries,
          status_eq_endingWords]
    | failure answer code =>
        simp [answer, endEntries, mt Pipeline.isSuccess_iff.1 code, outcomeEntries,
          status_eq_endingWords]
  · rintro rfl
    cases hanswer : call.answer with
    | error cause => exact .fault hanswer
    | ok execution =>
        by_cases hsuccess : execution.isSuccess = true
        · simp only [endEntries, hsuccess, if_true, List.nil_append, status_eq_endingWords]
          exact .success hanswer (Pipeline.isSuccess_iff.1 hsuccess)
        · simp only [endEntries, hsuccess, Bool.false_eq_true, if_false, List.singleton_append,
            status_eq_endingWords]
          exact .failure hanswer (mt Pipeline.isSuccess_iff.2 hsuccess)

theorem RunEnd.exists_error_iff {call : Call} {ending : List Log.Entry} (h : RunEnd call ending) :
    (∃ e ∈ ending, e.level = .error) ↔ ¬ call.Succeeded := by
  cases h with
  | fault answer => simp [Call.Succeeded, answer, Log.entry]
  | success answer code => simp [Call.Succeeded, answer, code, Log.entry, outcomeEntries]
  | failure answer code => simp [Call.Succeeded, answer, code, Log.entry]

theorem log_logged (executor : Executor σ) (args : List Bytes) (files : FileTree) (state : σ) :
    let done := executor args files state
    let call : Call := ⟨args, done.value⟩
    (logged executor args files state).log =
      call.announcement :: done.log ++ endEntries call.line call.answer := by
  simp only [logged, Action.bind_log, Action.report_apply, Action.reportAll_apply,
    Action.pure_apply, List.append_nil, List.singleton_append]
  rfl

/-!
## The log of a compilation
-/

/-- An entry that cannot be taken for one about the run of a tool or for an error. -/
def Unobtrusive (e : Log.Entry) : Prop :=
  e.level ≠ .error ∧ e.message ∉ setbackMessage :: runMessages

namespace Container

theorem unobtrusive_entry {level : Log.Level} {message : String}
    {fields : List (String × Log.Value)} (hlevel : level ≠ .error)
    (hmessage : text message ∉ setbackMessage :: runMessages) :
    Unobtrusive (Log.entry level message fields) := ⟨hlevel, hmessage⟩

theorem reports_complain {message : String} (h : text message ∉ setbackMessage :: runMessages)
    (b : Behaviour) (reply : List Bytes) : (complain message b reply).Reports Unobtrusive :=
  .report (unobtrusive_entry (by decide) h)

theorem reports_enforceTime (b : Behaviour) (command : Bytes) :
    (enforceTime b command).Reports Unobtrusive := by
  have htimedOut : Unobtrusive (Log.entry .warn "tool timed out" [("command", .text command)]) :=
    unobtrusive_entry (by decide) (by decide)
  unfold enforceTime
  split
  · refine .bind (.onTools _) fun _ => ?_
    dsimp only
    split
    · exact .bind (reports_complain (by decide) b _) fun _ => .report htimedOut
    · exact .report htimedOut
  · exact .pure _

theorem reports_collect (b : Behaviour) (ended : Ended) :
    (collect b ended).Reports Unobtrusive := by
  unfold collect
  dsimp only
  split
  · exact .bind (reports_complain (by decide) b _) fun _ => .pure _
  · exact .pure _

theorem reports_await (b : Behaviour) (command : Bytes) :
    (await b command).Reports Unobtrusive := by
  refine .bind (reports_enforceTime b command) fun _ => ?_
  split
  · exact .pure _
  · split
    · exact .pure _
    · exact .bind (reports_collect b _) fun _ => .pure _

theorem reports_runIn (config : Config) (command : Bytes) (args : List Bytes) :
    (runIn config command args).Reports Unobtrusive := by
  refine .bind (.onTools _) fun _ => .bind (.onTools _) fun b => ?_
  split
  · exact .pure _
  · refine .bind (.report (unobtrusive_entry (by decide) (by decide))) fun _ => ?_
    refine .bind ?_ fun answer => .bind (.bind (.onTools _) fun _ => ?_) fun _ => .pure _
    · refine .bind (.onTools _) fun _ => ?_
      split
      · exact .pure _
      · refine .bind (.onTools _) fun _ => .bind (.onTools _) fun _ => ?_
        split
        · exact .pure _
        · exact reports_await b command
    · split
      · exact reports_complain (by decide) b _
      · exact .pure _

/-- What is reported of containers is not taken for a report of a tool. -/
theorem reports_executor (config : Config) (args : List Bytes) :
    (executor config args).Reports Unobtrusive := by
  unfold executor
  split
  · exact .pure _
  · refine .bind (.onTools _) fun link => ?_
    split
    · exact reports_runIn config _ args
    · split
      · exact .pure _
      · exact .pure _

end Container

/-- A log as it is told by calls of tools, one behind the other.  Notes stand between the calls
and at the end.  Of each call there is the announcement, what the executor reports in the
meantime, how the run ended, and a warning if the tool ran without success. -/
inductive Told (o : Options) (t : Toolchain) : List (Tool × Call) → List Log.Entry → Prop
  | done {notes : List Log.Entry} (noted : ∀ e ∈ notes, IsNote e) : Told o t [] notes
  | call {tool : Tool} {call : Call} {calls : List (Tool × Call)}
      {before inside ending after rest : List Log.Entry}
      (command : call.command = expectedCommand o t tool) (noted : ∀ e ∈ before, IsNote e)
      (quiet : ∀ e ∈ inside, Unobtrusive e) (ended : RunEnd call ending)
      (notedAfter : ∀ e ∈ after, IsNote e) (told : Told o t calls rest) :
      Told o t ((tool, call) :: calls) (before ++ call.announcement :: inside ++ ending ++ after ++
        Pipeline.setbacks tool call.answer ++ rest)

namespace Told

variable {o : Options} {t : Toolchain} {calls more : List (Tool × Call)}
  {log rest : List Log.Entry}

theorem notes_append {notes : List Log.Entry} (noted : ∀ e ∈ notes, IsNote e)
    (h : Told o t calls log) : Told o t calls (notes ++ log) := by
  cases h with
  | done noted' => exact .done (List.forall_mem_append.2 ⟨noted, noted'⟩)
  | call command noted' quiet ended notedAfter told =>
      simp only [← List.append_assoc notes]
      exact .call command (List.forall_mem_append.2 ⟨noted, noted'⟩) quiet ended notedAfter told

theorem append (h : Told o t calls log) (h' : Told o t more rest) :
    Told o t (calls ++ more) (log ++ rest) := by
  induction h with
  | done noted => exact h'.notes_append noted
  | call command noted quiet ended notedAfter _ ih =>
      rw [List.append_assoc _ _ rest]
      exact .call command noted quiet ended notedAfter ih

/-- The log holds an error exactly if some call was no success. -/
theorem exists_error_iff (h : Told o t calls log) :
    (∃ e ∈ log, e.level = .error) ↔ ∃ p ∈ calls, ¬ p.2.Succeeded := by
  induction h with
  | done noted => simpa using fun e he => (noted e he).isOwn.level_ne_error
  | call command noted quiet ended notedAfter _ ih =>
      constructor
      · rintro ⟨e, he, herror⟩
        simp only [List.mem_append, List.mem_cons] at he
        rcases he with ((((he | rfl | he) | he) | he) | he) | he
        · exact absurd herror (noted e he).isOwn.level_ne_error
        · cases herror
        · exact absurd herror (quiet e he).1
        · exact ⟨_, List.mem_cons_self, ended.exists_error_iff.1 ⟨e, he, herror⟩⟩
        · exact absurd herror (notedAfter e he).isOwn.level_ne_error
        · exact absurd herror (Pipeline.isOwn_of_mem_setbacks e he).level_ne_error
        · obtain ⟨p, hp, hfail⟩ := ih.1 ⟨e, he, herror⟩
          exact ⟨p, List.mem_cons_of_mem _ hp, hfail⟩
      · rintro ⟨p, hp, hfail⟩
        rcases List.mem_cons.1 hp with rfl | hp
        · obtain ⟨e, he, herror⟩ := ended.exists_error_iff.2 hfail
          exact ⟨e, by simp [he], herror⟩
        · obtain ⟨e, he, herror⟩ := ih.2 ⟨p, hp, hfail⟩
          exact ⟨e, by simp [he], herror⟩

/-- The warnings in the log are those of its calls. -/
theorem filter_setback (h : Told o t calls log) :
    log.filter (·.message = setbackMessage) =
      calls.flatMap fun p => Pipeline.setbacks p.1 p.2.answer := by
  have hnone : ∀ {entries : List Log.Entry}, (∀ e ∈ entries, e.message ≠ setbackMessage) →
      entries.filter (·.message = setbackMessage) = [] := by
    intro entries hentries
    simpa [List.filter_eq_nil_iff] using hentries
  induction h with
  | done noted => exact hnone fun e he => (noted e he).message_ne_setback
  | @call tool call _ before inside ending after _ command noted quiet ended notedAfter _ ih =>
      have hrun : ∀ message ∈ runMessages, message ≠ setbackMessage := by decide
      have hannounced : call.announcement.message ≠ setbackMessage :=
        hrun _ call.announcement_message
      have hquiet : ∀ e ∈ inside, e.message ≠ setbackMessage :=
        fun e he hmessage => (quiet e he).2 (hmessage ▸ List.mem_cons_self)
      have hended : ∀ e ∈ ending, e.message ≠ setbackMessage :=
        fun e he => hrun _ (message_mem_runMessages e (runEnd_iff.1 ended ▸ he))
      simp only [List.filter_append, List.filter_cons, hannounced, decide_false,
        Bool.false_eq_true, if_false, hnone fun e he => (noted e he).message_ne_setback,
        hnone hquiet, hnone hended, hnone fun e he => (notedAfter e he).message_ne_setback,
        Pipeline.filter_setbacks, ih, List.nil_append, List.flatMap_cons]

/-- There are as many warnings as there are calls that ran in vain. -/
theorem countP_setback (h : Told o t calls log) :
    log.countP (fun e => e.level = .warn ∧ e.message = setbackMessage) =
      calls.countP fun p => p.2.ranInVain := by
  have hsplit : log.countP (fun e => e.level = .warn ∧ e.message = setbackMessage) =
      (log.filter (·.message = setbackMessage)).countP (·.level = .warn) := by
    rw [List.countP_filter]
    simp only [Bool.decide_and]
  rw [hsplit, h.filter_setback]
  clear hsplit h
  induction calls with
  | nil => rfl
  | cons p calls ih =>
      rw [List.flatMap_cons, List.countP_append, ih, List.countP_cons, Nat.add_comm]
      congr 1
      cases hanswer : p.2.answer with
      | error cause => simp [Pipeline.setbacks, Call.ranInVain, hanswer]
      | ok execution =>
          by_cases hcode : execution.code? = some 0
          · simp [Pipeline.setbacks, Call.ranInVain, hanswer, hcode]
          · simp [Pipeline.setbacks, Call.ranInVain, hanswer, hcode, Log.entry]

end Told

namespace Pipeline

open Compilation

variable {o : Options} {t : Toolchain} {executor : Executor σ}

/-- A stage tells of one call, that of its tool. -/
theorem told_stage (quiet : ∀ args, (executor args).Reports Unobtrusive) (s : Stage) (tool : Tool)
    (files : FileTree) (tools : σ × List Call) :
    let step := stage (runPhase o t (logged (recorded executor))) s tool files tools
    ∃ answer, step.value = verdict tool answer ∧
      step.tools.2 = tools.2 ++ [⟨expectedCommand o t tool, answer⟩] ∧
      Told o t [(tool, ⟨expectedCommand o t tool, answer⟩)] step.log := by
  intro step
  let call : Call := ⟨expectedCommand o t tool,
    (executor (expectedCommand o t tool) files tools.1).value⟩
  have hvalue : (runPhase o t (logged (recorded executor)) tool files tools).value = call.answer :=
    (runPhase_spec o t (logged (recorded executor)) tool files tools).1
  refine ⟨call.answer, ?_, ?_, ?_⟩
  · simp only [step, stage, enter, Action.bind_value, Action.report_apply, judge_value, hvalue]
  · have hcalls := runPhase_recorded o t (logged executor) tool files tools
    rw [← logged_recorded, hvalue, commandLine_eq_expectedCommand] at hcalls
    simp only [step, stage, enter, Action.bind_tools, Action.report_apply, judge_tools, hcalls]
  · obtain ⟨before, after, hbefore, hafter, hstage⟩ :=
      exists_stage_log (runPhase o t (logged (recorded executor))) s tool files tools
    obtain ⟨before', after', hbefore', hafter', hphase⟩ :=
      exists_runPhase_log o t (logged (recorded executor)) tool files tools
    have hinside := quiet call.command files tools.1
    have htold : Told o t [(tool, call)] _ :=
      .call rfl (List.forall_mem_append.2 ⟨hbefore, hbefore'⟩) hinside (runEnd_iff.2 rfl)
        (List.forall_mem_append.2 ⟨hafter', hafter⟩) (.done (List.forall_mem_nil _))
    have hrun : (logged (recorded executor) (expectedCommand o t tool) files tools).log =
        call.announcement :: (executor call.command files tools.1).log ++
          endEntries call.line call.answer := log_logged (recorded executor) _ files tools
    have hlog : step.log = _ := hstage
    rw [hphase, hvalue, hrun] at hlog
    rw [hlog]
    simpa only [List.append_assoc, List.cons_append, List.append_nil] using htold

/-- Stages in order tell of the calls of their tools, up to the last that was run. -/
theorem told_runPlan (quiet : ∀ args, (executor args).Reports Unobtrusive)
    (stages : List (Stage × Tool)) (files : FileTree) (tools : σ × List Call) :
    let step := runPlan (runPhase o t (logged (recorded executor))) stages files tools
    ∃ told : List (Tool × Call), step.tools.2 = tools.2 ++ told.map Prod.snd ∧
      told.map Prod.fst <+: stages.map Prod.snd ∧ Told o t told step.log := by
  induction stages generalizing files tools with
  | nil => exact ⟨[], by simp [runPlan], by simp, .done (List.forall_mem_nil _)⟩
  | cons next rest ih =>
      obtain ⟨s, tool⟩ := next
      obtain ⟨answer, hvalue, hcalls, htold⟩ :=
        told_stage (o := o) (t := t) quiet s tool files tools
      simp only [runPlan, Action.bind_tools, Action.bind_log, hvalue]
      cases answer with
      | error cause =>
          refine ⟨_, ?_, ?_, htold.append (.done (List.forall_mem_nil _))⟩
          · simpa [verdict] using hcalls
          · simp
      | ok execution =>
          obtain ⟨told, hcalls', hprefix, htold'⟩ := ih _ _
          refine ⟨_, ?_, ?_, htold.append htold'⟩
          · simp only [verdict]
            rw [hcalls', hcalls]
            simp
          · simpa using hprefix

theorem exists_conclude_log (stopAfterCompile : Bool) (outcome : Outcome) (files : FileTree)
    (state : σ) :
    (conclude stopAfterCompile outcome files state).tools = state ∧
      ∀ e ∈ (conclude stopAfterCompile outcome files state).log, IsNote e := by
  cases outcome with
  | error failure => exact ⟨rfl, List.forall_mem_nil _⟩
  | ok => exact ⟨rfl, List.forall_mem_singleton.2 (isNote_enter _)⟩

theorem told_compile (quiet : ∀ args, (executor args).Reports Unobtrusive) (files : FileTree)
    (state : σ) :
    let watched := compile o t (logged (recorded executor)) files (state, [])
    ∃ told : List (Tool × Call), told.map Prod.snd = watched.tools.2 ∧
      told.map Prod.fst <+: Tool.all ∧ Told o t told watched.log := by
  obtain ⟨told, hcalls, hphases, htold⟩ :=
    told_runPlan (o := o) (t := t) quiet (plan o.stopAfterCompile) files (state, [])
  have hplan : (plan o.stopAfterCompile).map Prod.snd <+: Tool.all := by
    cases o.stopAfterCompile <;> decide
  simp only [compile, drive_eq_runPlan, Action.bind_tools, Action.bind_log]
  obtain ⟨htools, hnoted⟩ := exists_conclude_log o.stopAfterCompile _ _ _
  refine ⟨told, ?_, hphases.trans hplan, ?_⟩
  · rw [htools, hcalls, List.nil_append]
  · simpa using htold.append (.done hnoted)

/-- Every failure of a tool is reported, once and at its level.  The log is told by the calls of
the tools, the k-th of them for the k-th phase.  The pipeline warns of the tools that ran in vain,
once for each and by its phase and status, and of no others.  There is an error in the log exactly
if some tool could not be run or did not succeed. -/
theorem compile_reports_each_failure (o : Options) (t : Toolchain) {executor : Executor σ}
    (quiet : ∀ args, (executor args).Reports Unobtrusive) (files : FileTree) (state : σ) :
    let run := compile o t (logged executor) files state
    let calls := (compile o t (logged (recorded executor)) files (state, [])).tools.2
    ∃ told : List (Tool × Call),
      told.map Prod.snd = calls ∧ told.map Prod.fst <+: Tool.all ∧ Told o t told run.log ∧
      run.log.filter (·.message = setbackMessage) =
        told.flatMap (fun p => setbacks p.1 p.2.answer) ∧
      run.log.countP (fun e => e.level = .warn ∧ e.message = setbackMessage) =
        calls.countP Call.ranInVain ∧
      ((∃ e ∈ run.log, e.level = .error) ↔ ∃ call ∈ calls, ¬ call.Succeeded) := by
  intro run calls
  obtain ⟨told, hcalls, hphases, htold⟩ := told_compile (o := o) (t := t) quiet files state
  replace hcalls : told.map Prod.snd = calls := hcalls
  obtain ⟨-, -, hlog⟩ :=
    inStep_compile o t (logged executor) files state files (state, []) ⟨rfl, rfl⟩
  replace htold : Told o t told run.log := hlog ▸ htold
  refine ⟨told, hcalls, hphases, htold, htold.filter_setback, ?_, ?_⟩
  · rw [htold.countP_setback, ← hcalls, List.countP_map]
    rfl
  · rw [htold.exists_error_iff, ← hcalls]
    simp only [List.mem_map, exists_exists_and_eq_and]

/-- Tools in containers: one succeeds, one is killed and cannot be removed, and for one there is
no container.  The warning names the one that was killed and what became of it. -/
theorem compile_reports_each_failure_killed :
    let config : Container.Config := ⟨text "tools", text "/work", [], 0, 0, .standard⟩
    let daemon : Container.Daemon := ⟨.scripted,
      [{ id := text "a" }, { id := text "b", untilKilled := true, removeComplaint := some [] },
        { id := text "c", createComplaint := some (text "full") }], []⟩
    let o : Options := ⟨text "a.c", false, false, false, false, false, .epoc16⟩
    let run := compile o {} (logged (Container.executor config)) .empty daemon
    (∀ args, (Container.executor config args).Reports Unobtrusive) ∧
      run.log.filter (·.message = setbackMessage) = [Log.entry .warn "phase tool did not succeed"
        [("phase", .text (text "compiler")), ("status", .text (text "signal: SIGKILL"))]] ∧
      run.log.countP (fun e => e.level = .warn ∧ e.message = setbackMessage) = 1 ∧
      ∃ e ∈ run.log, e.level = .error := by
  intro config daemon o run
  have hquiet := Container.reports_executor config
  obtain ⟨told, hcalls, hphases, -, hsetbacks, hcount, herror⟩ :=
    compile_reports_each_failure o {} hquiet .empty daemon
  generalize hmade : (compile o {} (logged (recorded (Container.executor config))) .empty
    (daemon, [])).tools.2 = calls at hcalls hcount herror
  have hlength : calls.length = 3 := by
    rw [← hmade]
    decide +kernel
  have hvain : calls.countP Call.ranInVain = 1 := by
    rw [← hmade]
    decide +kernel
  -- Three calls were made, so each tool was called.
  have htools : told.map Prod.fst = Tool.all := by
    apply hphases.eq_of_length
    rw [List.length_map, ← List.length_map Prod.snd, hcalls, hlength]
    rfl
  refine ⟨hquiet, ?_, hcount.trans hvain, herror.2 ?_⟩
  · rw [hsetbacks, List.zip_of_prod htools hcalls, ← hmade]
    decide +kernel
  · obtain ⟨call, hcall, hran⟩ := List.countP_pos_iff.1 (hvain ▸ Nat.one_pos)
    refine ⟨call, hcall, ?_⟩
    rintro ⟨execution, hanswer, hcode⟩
    simp [Call.ranInVain, hanswer, hcode] at hran

end Pipeline
end CrossCompiler
