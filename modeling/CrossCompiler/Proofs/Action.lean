import Mathlib
import CrossCompiler.Compilation.Pipeline

/-!
# What actions report, and two actions in step

What an action can report is known from what its parts can.  Two actions may work on different
files and on tools of different kinds, and still do the same in every way that matters.  A
coupling says which files and tools correspond and which logs do.  Actions in step give the same
value and keep the correspondence; the pipeline of phases in step is in step.  That a tool is
called the same way on both sides is not part of a coupling, but of the tools' states it relates.
What is true of a pipeline is shown of its stages one by one, since it is a loop over them.
-/

namespace CrossCompiler

namespace Action

variable {σ α β : Type} (first : Action σ α) (next : α → Action σ β) (files : FileTree) (tools : σ)

@[simp]
theorem bind_value : ((first >>= next) files tools).value =
    (next (first files tools).value (first files tools).files (first files tools).tools).value :=
  rfl

@[simp]
theorem bind_files : ((first >>= next) files tools).files =
    (next (first files tools).value (first files tools).files (first files tools).tools).files :=
  rfl

@[simp]
theorem bind_tools : ((first >>= next) files tools).tools =
    (next (first files tools).value (first files tools).files (first files tools).tools).tools :=
  rfl

@[simp]
theorem bind_log : ((first >>= next) files tools).log = (first files tools).log ++
    (next (first files tools).value (first files tools).files (first files tools).tools).log :=
  rfl

/-- What follows an action goes on from what the action leaves. -/
theorem bind_of_eq {a : α} {files' : FileTree} {tools' : σ} {log : List Log.Entry}
    (h : first files tools = ⟨a, files', tools', log⟩) :
    (first >>= next) files tools = ⟨(next a files' tools').value, (next a files' tools').files,
      (next a files' tools').tools, log ++ (next a files' tools').log⟩ := by
  change Action.bind first next files tools = _
  rw [Action.bind, h]

@[simp]
theorem pure_apply (a : α) : (Pure.pure a : Action σ α) files tools = ⟨a, files, tools, []⟩ := rfl

@[simp]
theorem report_apply (e : Log.Entry) :
    (report e : Action σ Unit) files tools = ⟨(), files, tools, [e]⟩ := rfl

@[simp]
theorem reportAll_apply (es : List Log.Entry) :
    (reportAll es : Action σ Unit) files tools = ⟨(), files, tools, es⟩ := rfl

@[simp]
theorem inspect_apply (f : FileTree → α) :
    (inspect f : Action σ α) files tools = ⟨f files, files, tools, []⟩ := rfl

/-- Looking at the files leaves no trace. -/
theorem inspect_bind (f : FileTree → α) :
    ((inspect f : Action σ α) >>= next) files tools = next (f files) files tools := rfl

@[simp]
theorem replaceFiles_apply (files' : FileTree) :
    (replaceFiles files' : Action σ Unit) files tools = ⟨(), files', tools, []⟩ := rfl

/-- Actions in sequence can be grouped in any way. -/
protected theorem bind_assoc {γ : Type} (last : β → Action σ γ) :
    first >>= next >>= last = first >>= fun a => next a >>= last := by
  funext files tools
  show Step.mk _ _ _ _ = Step.mk _ _ _ _
  simp only [Step.mk.injEq, bind_log, List.append_assoc]
  exact ⟨rfl, rfl, rfl, rfl⟩

/-- Every entry that the action can report is of some kind. -/
def Reports (P : Log.Entry → Prop) (a : Action σ α) : Prop :=
  ∀ files tools, ∀ e ∈ (a files tools).log, P e

section Reports

variable {P : Log.Entry → Prop}

theorem Reports.pure (a : α) : (Pure.pure a : Action σ α).Reports P := by
  intro files tools e he
  cases he

theorem Reports.bind {first : Action σ α} {next : α → Action σ β} (hfirst : first.Reports P)
    (hnext : ∀ a, (next a).Reports P) : (first >>= next).Reports P := by
  intro files tools e he
  rw [bind_log, List.mem_append] at he
  rcases he with he | he
  · exact hfirst _ _ e he
  · exact hnext _ _ _ e he

theorem Reports.report {e : Log.Entry} (h : P e) : (report e : Action σ Unit).Reports P := by
  intro files tools e' he'
  obtain rfl := List.mem_singleton.1 he'
  exact h

theorem Reports.reportAll {es : List Log.Entry} (h : ∀ e ∈ es, P e) :
    (reportAll es : Action σ Unit).Reports P :=
  fun _ _ => h

theorem Reports.inspect (f : FileTree → α) : (inspect f : Action σ α).Reports P := by
  intro files tools e he
  cases he

theorem Reports.onTools (f : σ → α × σ) : (onTools f).Reports P := by
  intro files tools e he
  cases he

theorem Reports.replaceFiles (files' : FileTree) :
    (replaceFiles files' : Action σ Unit).Reports P := by
  intro files tools e he
  cases he

end Reports

end Action

namespace Pipeline

variable {σ : Type}

/-- The stages of a pipeline, with the tools they run. -/
def plan (stopAfterCompile : Bool) : List (Stage × Tool) :=
  [(.preprocessing, .preprocessor), (.compiling, .compiler)] ++
    if stopAfterCompile then [] else [(.assembling, .assembler)]

/-- Runs stages in order, up to the first tool that cannot be run. -/
def runPlan (phases : Tool → Action σ Answer) : List (Stage × Tool) → Action σ Outcome
  | [] => return .ok ()
  | (s, tool) :: rest => do
    match ← stage phases s tool with
    | .error failure => return .error failure
    | .ok _ => runPlan phases rest

/-- Says so when all stages are through. -/
def conclude (stopAfterCompile : Bool) : Outcome → Action σ Outcome
  | .error failure => return .error failure
  | .ok _ => do
    enter (if stopAfterCompile then .stopped else .done)
    return .ok ()

/-- The pipeline is a loop over its stages. -/
theorem drive_eq_runPlan (phases : Tool → Action σ Answer) (stopAfterCompile : Bool) :
    drive phases stopAfterCompile =
      runPlan phases (plan stopAfterCompile) >>= conclude stopAfterCompile := by
  show stage phases .preprocessing .preprocessor >>= _ =
    stage phases .preprocessing .preprocessor >>= _ >>= _
  rw [Action.bind_assoc]
  refine bind_congr fun preprocessed => ?_
  cases preprocessed with
  | error failure => rfl
  | ok =>
      show stage phases .compiling .compiler >>= _ = stage phases .compiling .compiler >>= _ >>= _
      rw [Action.bind_assoc]
      refine bind_congr fun compiled => ?_
      cases compiled with
      | error failure => rfl
      | ok =>
          cases stopAfterCompile with
          | true => rfl
          | false =>
              show stage phases .assembling .assembler >>= _ =
                stage phases .assembling .assembler >>= _ >>= _
              rw [Action.bind_assoc]
              refine bind_congr fun assembled => ?_
              cases assembled with
              | error failure => rfl
              | ok => rfl

end Pipeline

/-- A correspondence of the world before or after two actions, and of what they reported. -/
structure Coupling (σ τ : Type) where
  related : FileTree → σ → FileTree → τ → Prop
  logs : List Log.Entry → List Log.Entry → Prop
  logs_nil : logs [] []
  logs_append : ∀ {l l' m m'}, logs l l' → logs m m' → logs (l ++ m) (l' ++ m')

namespace Coupling

variable {σ τ α β : Type} {k : Coupling σ τ}

/-- From corresponding worlds the actions give the same value, corresponding worlds and
corresponding logs. -/
def InStep (k : Coupling σ τ) (a : Action σ α) (b : Action τ α) : Prop :=
  ∀ files tools files' tools', k.related files tools files' tools' →
    (a files tools).value = (b files' tools').value ∧
    k.related (a files tools).files (a files tools).tools (b files' tools').files
      (b files' tools').tools ∧
    k.logs (a files tools).log (b files' tools').log

theorem InStep.pure (a : α) : k.InStep (Pure.pure a) (Pure.pure a) :=
  fun _ _ _ _ h => ⟨rfl, h, k.logs_nil⟩

theorem InStep.bind {first : Action σ α} {first' : Action τ α} {next : α → Action σ β}
    {next' : α → Action τ β} (hfirst : k.InStep first first')
    (hnext : ∀ a, k.InStep (next a) (next' a)) : k.InStep (first >>= next) (first' >>= next') := by
  intro files tools files' tools' h
  obtain ⟨hvalue, hworld, hlog⟩ := hfirst files tools files' tools' h
  obtain ⟨hvalue', hworld', hlog'⟩ := hnext (first files tools).value _ _ _ _ hworld
  simp only [Action.bind_value, Action.bind_files, Action.bind_tools, Action.bind_log, ← hvalue]
  exact ⟨hvalue', hworld', k.logs_append hlog hlog'⟩

theorem InStep.report {e e' : Log.Entry} (h : k.logs [e] [e']) :
    k.InStep (Action.report e) (Action.report e') :=
  fun _ _ _ _ hworld => ⟨rfl, hworld, h⟩

theorem InStep.inspect {f g : FileTree → α}
    (h : ∀ files tools files' tools', k.related files tools files' tools' → f files = g files') :
    k.InStep (Action.inspect f) (Action.inspect g) :=
  fun _ _ _ _ hworld => ⟨h _ _ _ _ hworld, hworld, k.logs_nil⟩

/-- Corresponding worlds have the same files and still correspond when both get the same other
files, and every entry corresponds to itself. -/
structure SharesFiles (k : Coupling σ τ) : Prop where
  files_eq : ∀ {files tools files' tools'}, k.related files tools files' tools' → files = files'
  replace : ∀ {files tools files' tools'}, k.related files tools files' tools' →
    ∀ other, k.related other tools other tools'
  entry : ∀ e, k.logs [e] [e]

theorem InStep.inspect_same (h : k.SharesFiles) (f : FileTree → α) :
    k.InStep (Action.inspect f) (Action.inspect f) :=
  .inspect fun _ _ _ _ hworld => congrArg f (h.files_eq hworld)

theorem InStep.replaceFiles (h : k.SharesFiles) (other : FileTree) :
    k.InStep (Action.replaceFiles other) (Action.replaceFiles other) :=
  fun _ _ _ _ hworld => ⟨rfl, h.replace hworld other, k.logs_nil⟩

section Pipeline

open Pipeline

variable (hentry : ∀ e, k.logs [e] [e])

include hentry

theorem inStep_judge (tool : Tool) (answer : Answer) :
    k.InStep (judge tool answer) (judge tool answer) := by
  cases answer with
  | error cause => exact .pure _
  | ok execution =>
      unfold judge
      dsimp only
      split
      · exact .bind (.report (hentry _)) fun _ => .pure _
      · exact .bind (.report (hentry _)) fun _ => .pure _

theorem inStep_stage {phases : Tool → Action σ Answer} {phases' : Tool → Action τ Answer}
    (h : ∀ tool, k.InStep (phases tool) (phases' tool)) (s : Stage) (tool : Tool) :
    k.InStep (stage phases s tool) (stage phases' s tool) :=
  .bind (.report (hentry _)) fun _ => .bind (h tool) fun answer => inStep_judge hentry tool answer

theorem inStep_runPlan {phases : Tool → Action σ Answer} {phases' : Tool → Action τ Answer}
    (h : ∀ tool, k.InStep (phases tool) (phases' tool)) (stages : List (Stage × Tool)) :
    k.InStep (runPlan phases stages) (runPlan phases' stages) := by
  induction stages with
  | nil => exact .pure _
  | cons next rest ih =>
      refine .bind (inStep_stage hentry h next.1 next.2) fun outcome => ?_
      cases outcome with
      | error failure => exact .pure _
      | ok => exact ih

/-- Pipelines are in step when their phases are. -/
theorem inStep_drive {phases : Tool → Action σ Answer} {phases' : Tool → Action τ Answer}
    (h : ∀ tool, k.InStep (phases tool) (phases' tool)) (stopAfterCompile : Bool) :
    k.InStep (drive phases stopAfterCompile) (drive phases' stopAfterCompile) := by
  rw [drive_eq_runPlan, drive_eq_runPlan]
  refine .bind (inStep_runPlan hentry h _) fun outcome => ?_
  cases outcome with
  | error failure => exact .pure _
  | ok => exact .bind (.report (hentry _)) fun _ => .pure _

end Pipeline
end Coupling
end CrossCompiler
