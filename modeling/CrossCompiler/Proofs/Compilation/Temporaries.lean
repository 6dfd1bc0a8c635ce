import CrossCompiler.Proofs.Compilation.Calls

/-!
# Temporary files and the outcome of a compilation

Tools that answer from a script leave nothing for the files to decide.  Two compilations with
the same script are then in step, whatever files they begin with, whatever their tools do to
these and whether or not temporary artifacts are kept: they run the same commands, they come
to the same outcome, and their logs differ in the entries about temporary files only.  Nothing
is said about the files they leave.
-/

namespace CrossCompiler

variable {σ τ : Type}

/-- An executor that answers from a script: its answers from any state on are fixed, however
the files look.  What it reports of a run is decided by the command and the answer.  What it
does to the files is left open. -/
structure Follows (script : σ → Nat → Answer) (notes : List Bytes → Answer → List Log.Entry)
    (executor : Executor σ) : Prop where
  answer : ∀ args files state, (executor args files state).value = script state 0
  next : ∀ args files state n, script (executor args files state).tools n = script state (n + 1)
  report : ∀ args files state, (executor args files state).log = notes args (script state 0)

/-- The answers a script still has to give. -/
def Script.answers (script : Script) (n : Nat) : Answer := (script.pending.getD n .quiet).answer

theorem follows_scripted : Follows Script.answers (fun _ _ => []) scripted where
  answer _ _ state := by
    cases hpending : state.pending <;> simp [scripted, Script.answers, hpending]
  next _ _ state n := by
    cases hpending : state.pending <;> simp [scripted, Script.answers, hpending]
  report _ _ _ := rfl

/-- Reporting every run does not turn an executor away from its script. -/
theorem Follows.logged {script : σ → Nat → Answer} {notes : List Bytes → Answer → List Log.Entry}
    {executor : Executor σ} (h : Follows script notes executor) :
    Follows script
      (fun args answer =>
        Log.entry .info "Executing" [("command", .text (Bytes.join (text " ") args))] ::
          (notes args answer ++ endEntries (Bytes.join (text " ") args) answer))
      (logged executor) where
  answer args files state := h.answer args files state
  next args files state := h.next args files state
  report args files state := by
    have hlog := h.report args files state
    have hvalue := h.answer args files state
    simp only [CrossCompiler.logged, Action.bind_log, Action.report_apply, Action.reportAll_apply,
      Action.pure_apply, hlog, hvalue, List.append_nil, List.singleton_append]

namespace Compilation

/-- What the log says of temporary files. -/
def temporaryMessages : List Bytes :=
  [text "preprocessed file is missing", text "retaining temporary file",
    text "deleted temporary file", text "failed to delete temporary file"]

/-- A log without what it says of temporary files. -/
def withoutTemporaries (log : List Log.Entry) : List Log.Entry :=
  log.filter fun entry => entry.message ∉ temporaryMessages

theorem withoutTemporaries_append (log more : List Log.Entry) :
    withoutTemporaries (log ++ more) = withoutTemporaries log ++ withoutTemporaries more :=
  List.filter_append ..

/-- An action that looks after temporary files and leaves the tools alone. -/
def KeepsHouse (a : Action σ Unit) : Prop :=
  ∀ files tools, (a files tools).tools = tools ∧ withoutTemporaries (a files tools).log = []

theorem keepsHouse_checkPreprocessed (path : Bytes) :
    KeepsHouse (checkPreprocessed path : Action σ Unit) := by
  intro files tools
  refine ⟨checkPreprocessed_tools path files tools, ?_⟩
  unfold checkPreprocessed
  cases h : files.stat path with
  | error fault => simp [h, withoutTemporaries, temporaryMessages, Log.entry]
  | ok entry => simp [h, withoutTemporaries]

theorem keepsHouse_discardTemp (o : Options) (path : Bytes) :
    KeepsHouse (discardTemp o path : Action σ Unit) := by
  intro files tools
  refine ⟨discardTemp_tools o path files tools, ?_⟩
  unfold discardTemp
  split
  · simp [withoutTemporaries, temporaryMessages, Log.entry]
  · cases h : files.remove path with
    | error fault => simp [h, withoutTemporaries, temporaryMessages, Log.entry]
    | ok after => simp [h, withoutTemporaries, temporaryMessages, Log.entry]

/-- Recorded tools correspond when the same runs are on record and the same answers are still
to come.  The files need not correspond at all. -/
def unattended (script : σ → Nat → Answer) (script' : τ → Nat → Answer) :
    Coupling (σ × List Call) (τ × List Call) where
  related _ tools _ tools' := script tools.1 = script' tools'.1 ∧ tools.2 = tools'.2
  logs log log' := withoutTemporaries log = withoutTemporaries log'
  logs_nil := rfl
  logs_append := fun h h' => by rw [withoutTemporaries_append, withoutTemporaries_append, h, h']

section

variable {script : σ → Nat → Answer} {script' : τ → Nat → Answer}
  {notes : List Bytes → Answer → List Log.Entry} {executor : Executor σ} {executor' : Executor τ}

theorem inStep_recorded_script (h : Follows script notes executor)
    (h' : Follows script' notes executor') (args : List Bytes) :
    (unattended script script').InStep (recorded executor args) (recorded executor' args) := by
  rintro files tools files' tools' ⟨hscript, hcalls⟩
  have hvalue : (executor args files tools.1).value = (executor' args files' tools'.1).value := by
    rw [h.answer, h'.answer, hscript]
  refine ⟨hvalue, ⟨?_, ?_⟩, ?_⟩
  · funext n
    exact (h.next args files tools.1 n).trans
      ((congrFun hscript (n + 1)).trans (h'.next args files' tools'.1 n).symm)
  · simp only [recorded, hvalue, hcalls]
  · have hlog : (executor args files tools.1).log = (executor' args files' tools'.1).log := by
      rw [h.report, h'.report, hscript]
    exact congrArg withoutTemporaries hlog

/-- However two actions look after temporary files, they are in step. -/
theorem KeepsHouse.inStep {a : Action (σ × List Call) Unit} {b : Action (τ × List Call) Unit}
    (ha : KeepsHouse a) (hb : KeepsHouse b) : (unattended script script').InStep a b := by
  intro files tools files' tools' hrelated
  obtain ⟨htools, hlog⟩ := ha files tools
  obtain ⟨htools', hlog'⟩ := hb files' tools'
  refine ⟨rfl, ?_, hlog.trans hlog'.symm⟩
  rw [htools, htools']
  exact hrelated

/-- A phase is in step with the same phase under another decision about temporary files. -/
theorem inStep_runPhase_saveTemps (h : Follows script notes executor)
    (h' : Follows script' notes executor') (o : Options) (keep keep' : Bool) (t : Toolchain)
    (tool : Tool) :
    (unattended script script').InStep
      (runPhase { o with saveTemps := keep } t (recorded executor) tool)
      (runPhase { o with saveTemps := keep' } t (recorded executor') tool) := by
  have hrun := fun args => inStep_recorded_script h h' args
  cases tool with
  | preprocessor => exact hrun _
  | compiler =>
      refine .bind ?_ fun _ => .bind (hrun _) fun answer => .bind ?_ fun _ => .pure _
      · exact (keepsHouse_checkPreprocessed _).inStep (keepsHouse_checkPreprocessed _)
      · exact (keepsHouse_discardTemp _ _).inStep (keepsHouse_discardTemp _ _)
  | assembler =>
      refine .bind (hrun _) fun answer => .bind ?_ fun _ => .pure _
      exact (keepsHouse_discardTemp _ _).inStep (keepsHouse_discardTemp _ _)

end
end Compilation

namespace Pipeline

open Compilation

/-- Whatever stands in the files, whatever the tools do to them, and whether or not temporary
artifacts are kept: with the same answers from the tools a compilation runs the same commands,
ends in the same way and logs the same, what it says of temporary files apart. -/
theorem compile_ignores_temporaries {script : σ → Nat → Answer} {script' : τ → Nat → Answer}
    {notes : List Bytes → Answer → List Log.Entry} {executor : Executor σ}
    {executor' : Executor τ} (h : Follows script notes executor)
    (h' : Follows script' notes executor') {state : σ} {state' : τ}
    (hscript : script state = script' state') (o : Options) (keep keep' : Bool) (t : Toolchain)
    (files files' : FileTree) :
    let run := compile { o with saveTemps := keep } t executor files state
    let run' := compile { o with saveTemps := keep' } t executor' files' state'
    let watched := compile { o with saveTemps := keep } t (recorded executor) files (state, [])
    let watched' :=
      compile { o with saveTemps := keep' } t (recorded executor') files' (state', [])
    watched.tools.2 = watched'.tools.2 ∧ run.value = run'.value ∧
      exitCode run.value = exitCode run'.value ∧
      withoutTemporaries run.log = withoutTemporaries run'.log := by
  intro run run' watched watched'
  have hphases := inStep_runPhase_saveTemps h h' o keep keep' t
  have hstep : (unattended script script').InStep
      (compile { o with saveTemps := keep } t (recorded executor))
      (compile { o with saveTemps := keep' } t (recorded executor')) :=
    Coupling.inStep_drive (fun _ => rfl) hphases _
  obtain ⟨hvalue, ⟨-, hcalls⟩, hlog⟩ :=
    hstep files (state, []) files' (state', []) ⟨hscript, rfl⟩
  -- The record is taken away again on both sides.
  obtain ⟨hplain, -, hlogPlain⟩ := inStep_compile { o with saveTemps := keep } t executor
    files state files (state, []) ⟨rfl, rfl⟩
  obtain ⟨hplain', -, hlogPlain'⟩ := inStep_compile { o with saveTemps := keep' } t executor'
    files' state' files' (state', []) ⟨rfl, rfl⟩
  have hsame : run.value = run'.value := hplain.trans (hvalue.trans hplain'.symm)
  refine ⟨hcalls, hsame, congrArg exitCode hsame, ?_⟩
  calc withoutTemporaries run.log = withoutTemporaries watched.log :=
        congrArg withoutTemporaries hlogPlain
    _ = withoutTemporaries watched'.log := hlog
    _ = withoutTemporaries run'.log := (congrArg withoutTemporaries hlogPlain').symm

/-- Two runs with the same answers: one tool succeeds, one is killed and one is not there.  One
run begins without files and removes the preprocessed file that its first tool writes; the
other meets a directory in its place, which it is told to keep. -/
theorem compile_ignores_temporaries_crowded :
    let preprocessed : Answer := .ok ⟨.exited 0, [], []⟩
    let compiled : Answer := .ok ⟨.signalled (text "SIGSEGV"), [], text "bug"⟩
    let assembled : Answer := .error .emptyCommand
    let writing : Script := ⟨[⟨[(text "a.i", text "int")], [], preprocessed⟩,
      ⟨[], [], compiled⟩, ⟨[], [], assembled⟩], []⟩
    let idle : Script := ⟨[⟨[], [], preprocessed⟩, ⟨[], [], compiled⟩, ⟨[], [], assembled⟩], []⟩
    let o : Options := ⟨text "a.c", true, false, false, false, false, .epoc16⟩
    let run := compile o {} (logged scripted) .empty writing
    let run' := compile { o with saveTemps := true } {} (logged scripted)
      (.ofList [(text "a.i/b", [])]) idle
    writing.answers = idle.answers ∧ run.value = run'.value ∧
      withoutTemporaries run.log = withoutTemporaries run'.log := by
  intro preprocessed compiled assembled writing idle o run run'
  have hscript : writing.answers = idle.answers := by
    funext n
    rcases n with _ | _ | _ | n <;> rfl
  obtain ⟨-, hvalue, -, hlog⟩ := compile_ignores_temporaries follows_scripted.logged
    follows_scripted.logged hscript o false true {} .empty (.ofList [(text "a.i/b", [])])
  exact ⟨hscript, hvalue, hlog⟩

end Pipeline
end CrossCompiler
