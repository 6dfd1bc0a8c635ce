import CrossCompiler.Proofs.Artifact
import CrossCompiler.Proofs.Compilation.Calls

/-!
# Phases in any order

The phases of one compilation can be run in any order and any number of times.  Each of them
runs its tool once, on whatever files it meets, and answers what the tool answered.  What it
does to the files by itself is to remove the artifact its tool has read, after the tool is
done, and even that only if temporary artifacts are not kept.
-/

namespace CrossCompiler
namespace Compilation

open FileTree (Cleared)

variable {σ : Type}

/-- Runs phases one after the other. -/
def runPhases (o : Options) (t : Toolchain) (executor : Executor σ) :
    List Tool → Action σ (List Answer)
  | [] => return []
  | tool :: rest => do
    let answer ← runPhase o t executor tool
    let answers ← runPhases o t executor rest
    return answer :: answers

/-- The artifact that the tool of a phase reads. -/
def consumed? : Tool → Option Artifact
  | .preprocessor => none
  | .compiler => some .preprocessed
  | .assembler => some .assembly

/-- What a phase leaves of the files that its tool left. -/
inductive Tidied (o : Options) (left : FileTree) (tool : Tool) : FileTree → Prop
  | untouched (idle : consumed? tool = none ∨ o.saveTemps = true) : Tidied o left tool left
  | cleared {artifact : Artifact} {after : FileTree} (consumed : consumed? tool = some artifact)
      (discard : o.saveTemps = false)
      (cleared : Cleared left (Artifact.path o.source artifact) after) : Tidied o left tool after

/-- A course of phases: the files and tools it begins with, the answers it gives, and the files
and tools it ends with.  A tool meets the files as the phase before it left them. -/
inductive Course (o : Options) (t : Toolchain) (executor : Executor σ) :
    List Tool → FileTree → σ → List Answer → FileTree → σ → Prop
  | done (files : FileTree) (state : σ) : Course o t executor [] files state [] files state
  | phase (tool : Tool) {rest : List Tool} {files after last : FileTree} {state final : σ}
      {answers : List Answer} {ran : Step σ Answer}
      (run : executor (expectedCommand o t tool) files state = ran)
      (tidied : Tidied o ran.files tool after)
      (course : Course o t executor rest after ran.tools answers last final) :
      Course o t executor (tool :: rest) files state (ran.value :: answers) last final

/-!
## One phase
-/

theorem checkPreprocessed_files (path : Bytes) (files : FileTree) (tools : σ) :
    (checkPreprocessed path files tools).files = files := by
  unfold checkPreprocessed
  cases h : files.stat path with
  | error fault => simp [h]
  | ok entry => simp [h]

theorem discardTemp_files (o : Options) (path : Bytes) (files : FileTree) (tools : σ) :
    (discardTemp o path files tools).files =
      if o.saveTemps then files else (files.remove path).toOption.getD files := by
  unfold discardTemp
  split
  · rfl
  · cases h : files.remove path with
    | error fault => simp [h, Except.toOption]
    | ok after => simp [h, Except.toOption]

/-- A phase is the run of its tool, and the removal of what the tool consumed. -/
theorem runPhase_spec (o : Options) (t : Toolchain) (executor : Executor σ) (tool : Tool)
    (files : FileTree) (state : σ) :
    let ran := executor (expectedCommand o t tool) files state
    let step := runPhase o t executor tool files state
    step.value = ran.value ∧ step.tools = ran.tools ∧
      step.files = match consumed? tool with
        | none => ran.files
        | some artifact => if o.saveTemps then ran.files
            else (ran.files.remove (o.path artifact)).toOption.getD ran.files := by
  rw [← commandLine_eq_expectedCommand]
  cases tool with
  | preprocessor => exact ⟨rfl, rfl, rfl⟩
  | compiler =>
      simp only [runPhase, consumed?, Action.bind_value, Action.bind_tools, Action.bind_files,
        Action.pure_apply, checkPreprocessed_tools, checkPreprocessed_files, discardTemp_tools,
        discardTemp_files, and_self]
  | assembler =>
      simp only [runPhase, consumed?, Action.bind_value, Action.bind_tools, Action.bind_files,
        Action.pure_apply, discardTemp_tools, discardTemp_files, and_self]

/-- A phase changes the files its tool left in one place at most. -/
theorem tidied_runPhase (o : Options) (t : Toolchain) (executor : Executor σ) (tool : Tool)
    (files : FileTree) (state : σ) :
    Tidied o (executor (expectedCommand o t tool) files state).files tool
      (runPhase o t executor tool files state).files := by
  obtain ⟨-, -, hfiles⟩ := runPhase_spec o t executor tool files state
  rw [hfiles]
  cases hconsumed : consumed? tool with
  | none => exact .untouched (.inl hconsumed)
  | some artifact =>
      cases hkeep : o.saveTemps with
      | true => exact .untouched (.inr hkeep)
      | false =>
          have hname := Artifact.endsInName_path o.source artifact
          exact .cleared hconsumed hkeep (FileTree.cleared_remove hname _)

/-- No file is left of the artifact that a phase has consumed. -/
theorem Tidied.eq_directory {o : Options} {left after : FileTree} {tool : Tool}
    {artifact : Artifact} (h : Tidied o left tool after)
    (hconsumed : consumed? tool = some artifact) (hdiscard : o.saveTemps = false)
    {place : FileTree.Place} {entry : Entry}
    (hfind : after.find (o.path artifact) = .ok (place, entry)) : entry = .directory := by
  cases h with
  | untouched idle =>
      rcases idle with hnone | hkeep
      · rw [hnone] at hconsumed
        cases hconsumed
      · rw [hdiscard] at hkeep
        cases hkeep
  | cleared consumed _ cleared =>
      obtain rfl := Option.some.inj (consumed.symm.trans hconsumed)
      exact cleared.eq_directory (Artifact.endsInName_path o.source _) hfind

/-!
## Sequences of phases
-/

theorem course_runPhases (o : Options) (t : Toolchain) (executor : Executor σ)
    (tools : List Tool) (files : FileTree) (state : σ) :
    Course o t executor tools files state (runPhases o t executor tools files state).value
      (runPhases o t executor tools files state).files
      (runPhases o t executor tools files state).tools := by
  induction tools generalizing files state with
  | nil => exact .done files state
  | cons tool rest ih =>
      have hrest := ih (runPhase o t executor tool files state).files
        (runPhase o t executor tool files state).tools
      obtain ⟨hvalue, htools, -⟩ := runPhase_spec o t executor tool files state
      rw [htools] at hrest
      simp only [runPhases, Action.bind_value, Action.bind_files, Action.bind_tools,
        Action.pure_apply, hvalue, htools]
      exact .phase tool rfl (tidied_runPhase o t executor tool files state) hrest

/-- What is left in the end is what the last phase left. -/
theorem Course.exists_tidied {o : Options} {t : Toolchain} {executor : Executor σ}
    {tools : List Tool} {files last : FileTree} {state final : σ} {answers : List Answer}
    (h : Course o t executor tools files state answers last final) {tool : Tool}
    (htool : tools.getLast? = some tool) : ∃ left, Tidied o left tool last := by
  induction h with
  | done => cases htool
  | phase first run tidied course ih =>
      cases course with
      | done =>
          obtain rfl : first = tool := by simpa using htool
          exact ⟨_, tidied⟩
      | phase second run' tidied' course' =>
          rw [List.getLast?_cons_cons] at htool
          exact ih htool

theorem Course.length_answers {o : Options} {t : Toolchain} {executor : Executor σ}
    {tools : List Tool} {files last : FileTree} {state final : σ} {answers : List Answer}
    (h : Course o t executor tools files state answers last final) :
    answers.length = tools.length := by
  induction h with
  | done => rfl
  | phase _ _ _ _ ih => rw [List.length_cons, List.length_cons, ih]

/-- Sequences of phases are in step if their executors are. -/
theorem inStep_runPhases_of_executor {τ : Type} {k : Coupling σ τ} (hshares : k.SharesFiles)
    {executor : Executor σ} {executor' : Executor τ}
    (h : ∀ args, k.InStep (executor args) (executor' args)) (o : Options) (t : Toolchain)
    (tools : List Tool) :
    k.InStep (runPhases o t executor tools) (runPhases o t executor' tools) := by
  induction tools with
  | nil => exact .pure _
  | cons tool rest ih =>
      refine .bind (inStep_runPhase_of_executor hshares h o t tool) fun _ => ?_
      exact .bind ih fun _ => .pure _

/-- Keeping a record changes nothing in a sequence of phases. -/
theorem inStep_runPhases (o : Options) (t : Toolchain) (executor : Executor σ)
    (tools : List Tool) :
    (recording σ).InStep (runPhases o t executor tools)
      (runPhases o t (recorded executor) tools) :=
  inStep_runPhases_of_executor sharesFiles_recording (inStep_recorded executor) o t tools

/-- Each phase adds one run to the record. -/
theorem runPhases_recorded (o : Options) (t : Toolchain) (executor : Executor σ)
    (tools : List Tool) (files : FileTree) (state : σ × List Call) :
    (runPhases o t (recorded executor) tools files state).tools.2 = state.2 ++
      List.zipWith Call.mk (tools.map (expectedCommand o t))
        (runPhases o t (recorded executor) tools files state).value := by
  induction tools generalizing files state with
  | nil => simp [runPhases]
  | cons tool rest ih =>
      simp only [runPhases, Action.bind_value, Action.bind_tools, Action.pure_apply, ih,
        runPhase_recorded, commandLine_eq_expectedCommand, List.map_cons, List.zipWith_cons_cons,
        List.append_assoc, List.singleton_append]

/-- Whatever the files are, whatever the tools do and in whatever order the phases are run, each
phase runs its tool once, with a command line that no earlier phase has a part in, and answers
what the tool answered.  Behind the tool it changes no file but the artifact that the tool
consumed, and of that no file is left unless temporary artifacts are kept. -/
theorem runPhases_touch_only_consumed (o : Options) (t : Toolchain) (executor : Executor σ)
    (tools : List Tool) (files : FileTree) (state : σ) :
    let run := runPhases o t executor tools files state
    let watched := runPhases o t (recorded executor) tools files (state, [])
    Course o t executor tools files state run.value run.files run.tools ∧
    (watched.value = run.value ∧ watched.files = run.files ∧ watched.tools.1 = run.tools ∧
      watched.log = run.log) ∧
    (run.value.length = tools.length ∧
      watched.tools.2 = List.zipWith Call.mk (tools.map (expectedCommand o t)) run.value) ∧
    ∀ tool artifact, tools.getLast? = some tool → consumed? tool = some artifact →
      o.saveTemps = false →
        ∀ place entry, run.files.find (o.path artifact) = .ok (place, entry) →
          entry = .directory := by
  intro run watched
  have hcourse := course_runPhases o t executor tools files state
  obtain ⟨hvalue, ⟨hfiles, htools⟩, hlog⟩ :=
    inStep_runPhases o t executor tools files state files (state, []) ⟨rfl, rfl⟩
  refine ⟨hcourse, ⟨hvalue.symm, hfiles.symm, htools.symm, hlog.symm⟩,
    ⟨hcourse.length_answers, ?_⟩, ?_⟩
  · have hcalls := runPhases_recorded o t executor tools files (state, [])
    rw [List.nil_append, ← hvalue] at hcalls
    exact hcalls
  · intro tool artifact htool hconsumed hdiscard place entry hfind
    obtain ⟨left, htidied⟩ := hcourse.exists_tidied htool
    exact htidied.eq_directory hconsumed hdiscard hfind

/-- The compiler's input is gone from a directory that is not the working directory, whichever way
the path leads there. -/
example :
    let files := FileTree.ofList [(text "/src/a.c", []), (text "/src/a.i", [])] [text "home"]
    let idle : Executor Unit := fun _ => pure (.ok ⟨.exited 0, [], []⟩)
    ∀ source ∈ [text "/src/a.c", text "../src/a.c"],
      let o : Options := ⟨source, false, false, false, false, false, .default⟩
      files.read (o.path .preprocessed) = .ok [] ∧
      (runPhases o {} idle [.compiler] files ()).files.find (o.path .preprocessed) =
        .error .missing := by
  decide

end Compilation
end CrossCompiler
