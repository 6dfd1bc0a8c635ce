import CrossCompiler.Proofs.Compilation.Reports

/-!
# Reporting the runs changes nothing

A program that runs tools can be given an executor or the same executor with reports of every
run.  It then makes the same calls and gets the same answers, leaves the same files and comes to
the same value.  Only its log differs: around what the executor reported of a run stand the
announcement of the command and how the run ended.

That much holds of every executor.  To take the reports out of the log again by their messages
alone, one has to know that the executor does not use these messages itself.
-/

namespace CrossCompiler

variable {σ α : Type}

/-- The second log is the first one with reports of runs put in.  Whatever stands in the first
log stands in the second, in the same order. -/
inductive Decorates : List Log.Entry → List Log.Entry → Prop
  | nil : Decorates [] []
  | entry (e : Log.Entry) {log log' : List Log.Entry} (rest : Decorates log log') :
      Decorates (e :: log) (e :: log')
  | run (call : Call) (inside : List Log.Entry) {ending log log' : List Log.Entry}
      (ended : RunEnd call ending) (rest : Decorates log log') :
      Decorates (inside ++ log) (call.announcement :: inside ++ ending ++ log')

/-- A log without the entries that have the message of a report of a run. -/
def withoutRuns (log : List Log.Entry) : List Log.Entry :=
  log.filter fun e => e.message ∉ runMessages

theorem withoutRuns_append (log more : List Log.Entry) :
    withoutRuns (log ++ more) = withoutRuns log ++ withoutRuns more :=
  List.filter_append ..

theorem withoutRuns_of_run {log : List Log.Entry} (h : ∀ e ∈ log, e.message ∈ runMessages) :
    withoutRuns log = [] := by
  simpa [withoutRuns, List.filter_eq_nil_iff] using h

theorem withoutRuns_of_other {log : List Log.Entry} (h : ∀ e ∈ log, e.message ∉ runMessages) :
    withoutRuns log = log := by
  simpa [withoutRuns, List.filter_eq_self] using h

namespace Decorates

variable {log log' more more' : List Log.Entry}

theorem append (h : Decorates log log') (h' : Decorates more more') :
    Decorates (log ++ more) (log' ++ more') := by
  induction h with
  | nil => exact h'
  | entry e _ ih => exact .entry e ih
  | run call inside ended _ ih =>
      rw [List.append_assoc, List.append_assoc _ _ more']
      exact .run call inside ended ih

theorem singleton (e : Log.Entry) : Decorates [e] [e] := .entry e .nil

/-- Nothing but reports of runs is put in. -/
theorem withoutRuns_eq (h : Decorates log log') : withoutRuns log' = withoutRuns log := by
  induction h with
  | nil => rfl
  | @entry e log log' _ ih =>
      rw [← List.singleton_append, withoutRuns_append, ih, ← withoutRuns_append,
        List.singleton_append]
  | @run call inside ending log log' ended _ ih =>
      have hannounced : withoutRuns [call.announcement] = [] :=
        withoutRuns_of_run (List.forall_mem_singleton.2 call.announcement_message)
      have hended : withoutRuns ending = [] := by
        rw [runEnd_iff.1 ended]
        exact withoutRuns_of_run message_mem_runMessages
      rw [← List.singleton_append (x := call.announcement)]
      simp only [withoutRuns_append, hannounced, hended, ih, List.nil_append, List.append_nil]

end Decorates

/-- The same files and the same tools, and a log with reports of runs put in. -/
def reporting (σ : Type) : Coupling σ σ where
  related files tools files' tools' := files = files' ∧ tools = tools'
  logs := Decorates
  logs_nil := .nil
  logs_append := Decorates.append

theorem sharesFiles_reporting : (reporting σ).SharesFiles where
  files_eq h := h.1
  replace h _ := ⟨rfl, h.2⟩
  entry := Decorates.singleton

theorem inStep_logged (inner : Executor σ) (args : List Bytes) :
    (reporting σ).InStep (inner args) (logged inner args) := by
  rintro files tools _ _ ⟨rfl, rfl⟩
  refine ⟨rfl, ⟨rfl, rfl⟩, ?_⟩
  have hrun := Decorates.run ⟨args, (inner args files tools).value⟩ (inner args files tools).log
    (runEnd_iff.2 rfl) .nil
  rw [List.append_nil, List.append_nil] at hrun
  rw [log_logged]
  exact hrun

/-- A program comes to the same with an executor and with the executor that reports every run. -/
structure Unaffected (program : ∀ {τ : Type}, Executor τ → Action τ α) (executor : Executor σ)
    (files : FileTree) (state : σ) : Prop where
  sameValue : (program (logged executor) files state).value =
    (program executor files state).value
  sameFiles : (program (logged executor) files state).files =
    (program executor files state).files
  sameTools : (program (logged executor) files state).tools =
    (program executor files state).tools
  /-- The executor inside is given the same commands, and gives the same answers. -/
  sameCalls : (program (logged (recorded executor)) files (state, [])).tools.2 =
    (program (recorded executor) files (state, [])).tools.2
  decorated : Decorates (program executor files state).log
    (program (logged executor) files state).log
  /-- Without the reports of runs the log is what it is without reporting them. -/
  erased : (∀ args, (executor args).Reports fun e => e.message ∉ runMessages) →
    withoutRuns (program (logged executor) files state).log = (program executor files state).log

/-- A program is unaffected if it is in step with itself under executors in step, and if it has
messages of its own. -/
theorem unaffected {program : ∀ {τ : Type}, Executor τ → Action τ α} {executor : Executor σ}
    (hstep : ∀ {τ : Type} (inner : Executor τ),
      (reporting τ).InStep (program inner) (program (logged inner)))
    (hreports : (∀ args, (executor args).Reports fun e => e.message ∉ runMessages) →
      (program executor).Reports fun e => e.message ∉ runMessages)
    (files : FileTree) (state : σ) : Unaffected program executor files state := by
  obtain ⟨hvalue, ⟨hfiles, htools⟩, hlog⟩ := hstep executor files state files state ⟨rfl, rfl⟩
  -- The calls are compared in a second pair of runs, which keep a record of them.
  obtain ⟨-, ⟨-, hcalls⟩, -⟩ :=
    hstep (recorded executor) files (state, []) files (state, []) ⟨rfl, rfl⟩
  refine ⟨hvalue.symm, hfiles.symm, htools.symm, congrArg Prod.snd hcalls.symm, hlog, ?_⟩
  intro hquiet
  have hplain := withoutRuns_of_other (hreports hquiet files state)
  exact (Decorates.withoutRuns_eq hlog).trans hplain

namespace Compilation

theorem reports_runPhases {P : Log.Entry → Prop} {executor : Executor σ}
    (hown : ∀ e, IsOwn e → P e) (h : ∀ args, (executor args).Reports P) (o : Options)
    (t : Toolchain) (tools : List Tool) : (runPhases o t executor tools).Reports P := by
  induction tools with
  | nil => exact .pure _
  | cons tool rest ih =>
      exact .bind (reports_runPhase hown h o t tool) fun _ => .bind ih fun _ => .pure _

/-- Whatever is compiled, with whatever tools and files: neither a sequence of phases nor a whole
compilation is affected by reports of its runs, and the exit code is the same. -/
theorem unaffected_by_reports (o : Options) (t : Toolchain) (executor : Executor σ)
    (files : FileTree) (state : σ) :
    (∀ tools, Unaffected (fun inner => runPhases o t inner tools) executor files state) ∧
    Unaffected (fun inner => Pipeline.compile o t inner) executor files state ∧
    Pipeline.exitCode (Pipeline.compile o t (logged executor) files state).value =
      Pipeline.exitCode (Pipeline.compile o t executor files state).value := by
  have hown : ∀ e, IsOwn e → e.message ∉ runMessages := fun _ => IsOwn.message_not_mem_runMessages
  have hcompile : Unaffected (fun inner => Pipeline.compile o t inner) executor files state := by
    refine unaffected (fun inner => ?_) (fun h => Pipeline.reports_compile hown h o t) files state
    exact Coupling.inStep_drive Decorates.singleton
      (inStep_runPhase_of_executor sharesFiles_reporting (inStep_logged inner) o t) _
  refine ⟨fun tools => ?_, hcompile, congrArg Pipeline.exitCode hcompile.sameValue⟩
  refine unaffected (fun inner => ?_) (fun h => reports_runPhases hown h o t tools) files state
  exact inStep_runPhases_of_executor sharesFiles_reporting (inStep_logged inner) o t tools

end Compilation
end CrossCompiler
