import CrossCompiler.Proofs.Action
import CrossCompiler.Proofs.Toolchain.Basic

/-!
# The tools a compilation runs

An executor is watched by one that keeps a record of its runs, each with its answer, and
changes nothing else.  The record of a compilation is one of five histories, told apart by
which tools could be run and by whether the user wants to stop behind the compiler.  What a
command line says never depends on what came of an earlier one, and only a tool that could
not be run ends the compilation.
-/

namespace CrossCompiler

/-- A command that was run, and what came of it. -/
structure Call where
  command : List Bytes
  answer : Answer
  deriving DecidableEq

variable {σ : Type}

/-- Keeps a record of every run of an executor. -/
def recorded (inner : Executor σ) : Executor (σ × List Call) := fun args files tools =>
  let done := inner args files tools.1
  ⟨done.value, done.files, (done.tools, tools.2 ++ [⟨args, done.value⟩]), done.log⟩

/-- It makes no difference whether the record is kept inside or outside of the reports. -/
theorem logged_recorded (inner : Executor σ) : logged (recorded inner) = recorded (logged inner) :=
  rfl

/-- Tools with a record correspond to the tools without. -/
def recording (σ : Type) : Coupling σ (σ × List Call) where
  related files tools files' tools' := files = files' ∧ tools = tools'.1
  logs := Eq
  logs_nil := rfl
  logs_append := fun h h' => by rw [h, h']

theorem inStep_recorded (inner : Executor σ) (args : List Bytes) :
    (recording σ).InStep (inner args) (recorded inner args) := by
  rintro files tools files' ⟨_, calls⟩ ⟨rfl, rfl⟩
  exact ⟨rfl, ⟨rfl, rfl⟩, rfl⟩

theorem sharesFiles_recording : (recording σ).SharesFiles where
  files_eq h := h.1
  replace h _ := ⟨rfl, h.2⟩
  entry _ := rfl

namespace Compilation

section InStep

variable {τ : Type} {k : Coupling σ τ} (hshares : k.SharesFiles)

include hshares

theorem inStep_discardTemp (o : Options) (path : Bytes) :
    k.InStep (discardTemp o path) (discardTemp o path) := by
  unfold discardTemp
  split
  · exact .report (hshares.entry _)
  · refine .bind (.inspect_same hshares _) fun removed => ?_
    cases removed with
    | error fault => exact .report (hshares.entry _)
    | ok files => exact .bind (.replaceFiles hshares files) fun _ => .report (hshares.entry _)

theorem inStep_checkPreprocessed (path : Bytes) :
    k.InStep (checkPreprocessed path) (checkPreprocessed path) := by
  refine .bind (.inspect_same hshares _) fun found => ?_
  cases found with
  | error fault => exact .report (hshares.entry _)
  | ok entry => exact .pure _

/-- A phase is in step with the same phase under another executor if the executors are. -/
theorem inStep_runPhase_of_executor {executor : Executor σ} {executor' : Executor τ}
    (h : ∀ args, k.InStep (executor args) (executor' args)) (o : Options) (t : Toolchain)
    (tool : Tool) : k.InStep (runPhase o t executor tool) (runPhase o t executor' tool) := by
  cases tool with
  | preprocessor => exact h _
  | compiler =>
      refine .bind (inStep_checkPreprocessed hshares _) fun _ => .bind (h _) fun answer => ?_
      exact .bind (inStep_discardTemp hshares o _) fun _ => .pure _
  | assembler =>
      refine .bind (h _) fun answer => ?_
      exact .bind (inStep_discardTemp hshares o _) fun _ => .pure _

end InStep

/-- Keeping a record changes nothing in a phase. -/
theorem inStep_runPhase (o : Options) (t : Toolchain) (executor : Executor σ) (tool : Tool) :
    (recording σ).InStep (runPhase o t executor tool) (runPhase o t (recorded executor) tool) :=
  inStep_runPhase_of_executor sharesFiles_recording (inStep_recorded executor) o t tool

theorem discardTemp_tools (o : Options) (path : Bytes) (files : FileTree) (tools : σ) :
    (discardTemp o path files tools).tools = tools := by
  unfold discardTemp
  split
  · rfl
  · cases h : files.remove path with
    | error fault => simp [h]
    | ok files => simp [h]

theorem checkPreprocessed_tools (path : Bytes) (files : FileTree) (tools : σ) :
    (checkPreprocessed path files tools).tools = tools := by
  unfold checkPreprocessed
  cases h : files.stat path with
  | error fault => simp [h]
  | ok entry => simp [h]

/-- A phase runs its tool once, and answers what the tool answered. -/
theorem runPhase_recorded (o : Options) (t : Toolchain) (executor : Executor σ) (tool : Tool)
    (files : FileTree) (tools : σ × List Call) :
    (runPhase o t (recorded executor) tool files tools).tools.2 = tools.2 ++
      [⟨commandLine o t tool, (runPhase o t (recorded executor) tool files tools).value⟩] := by
  cases tool with
  | preprocessor => rfl
  | compiler =>
      simp only [runPhase, Action.bind_tools, Action.bind_value, Action.pure_apply,
        discardTemp_tools, checkPreprocessed_tools]
      rfl
  | assembler =>
      simp only [runPhase, Action.bind_tools, Action.bind_value, Action.pure_apply,
        discardTemp_tools]
      rfl

/-- What each tool is told. -/
def expectedCommand (o : Options) (t : Toolchain) : Tool → List Bytes
  | .preprocessor => t.effective .preprocessor ++
      [o.source, text "-o", Artifact.path o.source .preprocessed]
  | .compiler => t.effective .compiler ++
      (if o.lex then [text "--lex"] else []) ++ (if o.parse then [text "--parse"] else []) ++
      (if o.codegen then [text "--codegen"] else []) ++
      (if o.platform = .default then [] else [text "--architecture", o.platform.name]) ++
      [Artifact.path o.source .preprocessed, text "-o", Artifact.path o.source .assembly]
  | .assembler => t.effective .assembler ++
      [Artifact.path o.source .assembly, text "-o", Artifact.path o.source .binary,
        text "-l", Artifact.path o.source .listing]

theorem commandLine_eq_expectedCommand (o : Options) (t : Toolchain) (tool : Tool) :
    commandLine o t tool = expectedCommand o t tool := by
  rw [commandLine, Toolchain.command_withDefaults]
  cases tool with
  | preprocessor => rfl
  | assembler => rfl
  | compiler =>
      simp [expectedCommand, arguments, stageArguments, Platform.isDefault, Options.path]

theorem expectedCommand_ne_nil (o : Options) (t : Toolchain) (tool : Tool) :
    expectedCommand o t tool ≠ [] := by
  rw [← commandLine_eq_expectedCommand, commandLine, Toolchain.command_withDefaults]
  simp [Toolchain.effective_ne_nil]

end Compilation

namespace Pipeline

open Compilation

/-- The five histories of a compilation: the commands it ran, with their answers, and its
outcome.  A tool that ran gives leave to go on, however it ended. -/
inductive History (o : Options) (t : Toolchain) : List Call → Outcome → Prop
  | noPreprocessor (cause : RunFault) :
      History o t [⟨expectedCommand o t .preprocessor, .error cause⟩]
        (.error ⟨.preprocessor, cause⟩)
  | noCompiler (preprocessed : Execution) (cause : RunFault) :
      History o t
        [⟨expectedCommand o t .preprocessor, .ok preprocessed⟩,
          ⟨expectedCommand o t .compiler, .error cause⟩]
        (.error ⟨.compiler, cause⟩)
  | stopped (preprocessed compiled : Execution) (stop : o.stopAfterCompile = true) :
      History o t
        [⟨expectedCommand o t .preprocessor, .ok preprocessed⟩,
          ⟨expectedCommand o t .compiler, .ok compiled⟩]
        (.ok ())
  | noAssembler (preprocessed compiled : Execution) (cause : RunFault)
      (stop : o.stopAfterCompile = false) :
      History o t
        [⟨expectedCommand o t .preprocessor, .ok preprocessed⟩,
          ⟨expectedCommand o t .compiler, .ok compiled⟩,
          ⟨expectedCommand o t .assembler, .error cause⟩]
        (.error ⟨.assembler, cause⟩)
  | done (preprocessed compiled assembled : Execution) (stop : o.stopAfterCompile = false) :
      History o t
        [⟨expectedCommand o t .preprocessor, .ok preprocessed⟩,
          ⟨expectedCommand o t .compiler, .ok compiled⟩,
          ⟨expectedCommand o t .assembler, .ok assembled⟩]
        (.ok ())

/-- What an answer means for the pipeline. -/
def verdict (tool : Tool) : Answer → Outcome
  | .error cause => .error ⟨tool, cause⟩
  | .ok _ => .ok ()

theorem judge_value (tool : Tool) (answer : Answer) (files : FileTree) (tools : σ) :
    (judge tool answer files tools).value = verdict tool answer := by
  cases answer with
  | error cause => rfl
  | ok execution =>
      unfold judge
      dsimp only
      split <;> rfl

theorem judge_tools (tool : Tool) (answer : Answer) (files : FileTree) (tools : σ) :
    (judge tool answer files tools).tools = tools := by
  cases answer with
  | error cause => rfl
  | ok execution =>
      unfold judge
      dsimp only
      split <;> rfl

theorem judge_files (tool : Tool) (answer : Answer) (files : FileTree) (tools : σ) :
    (judge tool answer files tools).files = files := by
  cases answer with
  | error cause => rfl
  | ok execution =>
      unfold judge
      dsimp only
      split <;> rfl

/-- A stage runs one tool and goes on unless the tool could not be run. -/
theorem stage_recorded (o : Options) (t : Toolchain) (executor : Executor σ) (s : Stage)
    (tool : Tool) (files : FileTree) (tools : σ × List Call) :
    ∃ answer,
      (stage (runPhase o t (recorded executor)) s tool files tools).tools.2 =
        tools.2 ++ [⟨expectedCommand o t tool, answer⟩] ∧
      (stage (runPhase o t (recorded executor)) s tool files tools).value =
        verdict tool answer := by
  refine ⟨(runPhase o t (recorded executor) tool files tools).value, ?_, ?_⟩
  · simp only [stage, enter, Action.bind_tools, Action.report_apply, judge_tools]
    rw [runPhase_recorded, commandLine_eq_expectedCommand]
  · simp only [stage, enter, Action.bind_value, Action.report_apply, judge_value]

/-- Every run of the pipeline over recorded tools is one of the histories. -/
theorem compile_history (o : Options) (t : Toolchain) (executor : Executor σ) (files : FileTree)
    (state : σ) :
    History o t (compile o t (recorded executor) files (state, [])).tools.2
      (compile o t (recorded executor) files (state, [])).value := by
  obtain ⟨a₁, hcalls₁, hvalue₁⟩ :=
    stage_recorded o t executor .preprocessing .preprocessor files (state, [])
  simp only [compile, drive, Action.bind_tools, Action.bind_value, hvalue₁]
  -- Of each stage only its record and its verdict matter to the next one.
  generalize stage (runPhase o t (recorded executor)) .preprocessing .preprocessor files
    (state, []) = s₁ at hcalls₁ ⊢
  cases a₁ with
  | error cause =>
      simp only [verdict, Action.pure_apply, hcalls₁]
      exact .noPreprocessor cause
  | ok preprocessed =>
      obtain ⟨a₂, hcalls₂, hvalue₂⟩ :=
        stage_recorded o t executor .compiling .compiler s₁.files s₁.tools
      simp only [verdict, Action.bind_tools, Action.bind_value, hvalue₂]
      generalize stage (runPhase o t (recorded executor)) .compiling .compiler s₁.files
        s₁.tools = s₂ at hcalls₂ ⊢
      cases a₂ with
      | error cause =>
          simp only [Action.pure_apply, hcalls₂, hcalls₁]
          exact .noCompiler preprocessed cause
      | ok compiled =>
          simp only
          cases hstop : o.stopAfterCompile with
          | true =>
              simp only [if_true, enter, Action.bind_tools, Action.bind_value,
                Action.report_apply, Action.pure_apply, hcalls₂, hcalls₁]
              exact .stopped preprocessed compiled hstop
          | false =>
              obtain ⟨a₃, hcalls₃, hvalue₃⟩ :=
                stage_recorded o t executor .assembling .assembler s₂.files s₂.tools
              simp only [Bool.false_eq_true, if_false, Action.bind_tools, Action.bind_value,
                hvalue₃]
              generalize stage (runPhase o t (recorded executor)) .assembling .assembler
                s₂.files s₂.tools = s₃ at hcalls₃ ⊢
              cases a₃ with
              | error cause =>
                  simp only [verdict, Action.pure_apply, hcalls₃, hcalls₂, hcalls₁]
                  exact .noAssembler preprocessed compiled cause hstop
              | ok assembled =>
                  simp only [verdict, enter, Action.bind_tools, Action.bind_value,
                    Action.report_apply, Action.pure_apply, hcalls₃, hcalls₂, hcalls₁]
                  exact .done preprocessed compiled assembled hstop

namespace History

variable {o : Options} {t : Toolchain} {calls : List Call} {outcome : Outcome}

theorem command_ne_nil (h : History o t calls outcome) : ∀ call ∈ calls, call.command ≠ [] := by
  have hcommand := expectedCommand_ne_nil o t
  cases h <;> simp [hcommand]

/-- The commands are those of the first tools, each once. -/
theorem exists_phases (h : History o t calls outcome) : ∃ phases : List Tool,
    phases <+: Tool.all ∧ phases.Nodup ∧
      calls.map Call.command = phases.map (expectedCommand o t) := by
  cases h with
  | noPreprocessor => exact ⟨[.preprocessor], by decide, by decide, rfl⟩
  | noCompiler => exact ⟨[.preprocessor, .compiler], by decide, by decide, rfl⟩
  | stopped => exact ⟨[.preprocessor, .compiler], by decide, by decide, rfl⟩
  | noAssembler => exact ⟨Tool.all, by decide, by decide, rfl⟩
  | done => exact ⟨Tool.all, by decide, by decide, rfl⟩

/-- However the tools ended, all of them are run if each could be. -/
theorem commands_of_ok (h : History o t calls outcome)
    (hran : ∀ call ∈ calls, ∃ execution, call.answer = .ok execution) :
    calls.map Call.command = (if o.stopAfterCompile then [.preprocessor, .compiler]
      else Tool.all).map (expectedCommand o t) := by
  cases h with
  | noPreprocessor => simp at hran
  | noCompiler => simp at hran
  | stopped _ _ stop => rw [if_pos stop]; rfl
  | noAssembler => simp at hran
  | done _ _ _ stop => rw [if_neg (by simp [stop])]; rfl

theorem exitCode_eq_ok_iff (h : History o t calls outcome) :
    exitCode outcome = .ok ↔ ∀ call ∈ calls, ∃ execution, call.answer = .ok execution := by
  cases h <;> simp [exitCode]

theorem exitCode_eq_unavailable_iff (h : History o t calls outcome) :
    exitCode outcome = .unavailable ↔ ∃ tool cause, outcome = .error ⟨tool, cause⟩ ∧
      calls.getLast? = some ⟨expectedCommand o t tool, .error cause⟩ := by
  cases h <;> simp [exitCode]

end History

/-- Keeping a record changes neither the outcome of a compilation nor its log. -/
theorem inStep_compile (o : Options) (t : Toolchain) (executor : Executor σ) :
    (recording σ).InStep (compile o t executor) (compile o t (recorded executor)) :=
  Coupling.inStep_drive (fun _ => rfl) (inStep_runPhase o t executor) _

/-- Whatever the files are and whatever the tools do, a compilation runs its tools in order,
each once and with the same command line, up to the first that could not be run.  It succeeds
if all of them could be run, and otherwise names the tool that could not.  Keeping the record
changes nothing. -/
theorem compile_runs_tools_in_order (o : Options) (t : Toolchain) (executor : Executor σ)
    (files : FileTree) (state : σ) :
    let run := compile o t executor files state
    let watched := compile o t (recorded executor) files (state, [])
    (watched.value = run.value ∧ watched.files = run.files ∧ watched.tools.1 = run.tools ∧
      watched.log = run.log) ∧
    History o t watched.tools.2 run.value ∧
    (∀ call ∈ watched.tools.2, call.command ≠ []) ∧
    (∃ phases : List Tool, phases <+: Tool.all ∧ phases.Nodup ∧
      watched.tools.2.map Call.command = phases.map (expectedCommand o t)) ∧
    ((∀ call ∈ watched.tools.2, ∃ execution, call.answer = .ok execution) →
      watched.tools.2.map Call.command = (if o.stopAfterCompile then [.preprocessor, .compiler]
        else Tool.all).map (expectedCommand o t)) ∧
    (exitCode run.value = .ok ↔
      ∀ call ∈ watched.tools.2, ∃ execution, call.answer = .ok execution) ∧
    (exitCode run.value = .unavailable ↔ ∃ tool cause, run.value = .error ⟨tool, cause⟩ ∧
      watched.tools.2.getLast? = some ⟨expectedCommand o t tool, .error cause⟩) := by
  intro run watched
  obtain ⟨hvalue, ⟨hfiles, htools⟩, hlog⟩ :=
    inStep_compile o t executor files state files (state, []) ⟨rfl, rfl⟩
  have hhistory : History o t watched.tools.2 run.value :=
    hvalue ▸ compile_history o t executor files state
  exact ⟨⟨hvalue.symm, hfiles.symm, htools.symm, hlog.symm⟩, hhistory, hhistory.command_ne_nil,
    hhistory.exists_phases, hhistory.commands_of_ok, hhistory.exitCode_eq_ok_iff,
    hhistory.exitCode_eq_unavailable_iff⟩

end Pipeline
end CrossCompiler
