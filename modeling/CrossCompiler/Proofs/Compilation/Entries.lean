import CrossCompiler.Proofs.Compilation.Phases

/-!
# Who reports what

What a compilation says by itself are notes on its course and on temporary files, and a warning
of each tool that ran without success, with its exit code or the signal that ended it.  The reports
of the runs use other words.  What an action can report follows from what its executor can, and the
log of a stage is that of its tool with notes and the warning around it.  Entries are told apart by
level and message only.
-/

namespace CrossCompiler

open Compilation (Options expectedCommand)
open Pipeline (Stage)

variable {σ : Type}

/-!
## The kinds of entries
-/

/-- The level and the message of an entry. -/
def Log.Entry.kind (e : Log.Entry) : Log.Level × Bytes := (e.level, e.message)

/-- What a compilation says of its course and of temporary files. -/
def noteKinds : List (Log.Level × Bytes) :=
  [(.debug, text "pipeline state"), (.debug, text "phase ok"),
    (.warn, text "preprocessed file is missing"), (.debug, text "retaining temporary file"),
    (.debug, text "deleted temporary file"), (.warn, text "failed to delete temporary file")]

/-- The message about a tool that ran without success. -/
def setbackMessage : Bytes := text "phase tool did not succeed"

/-- The messages about the runs of tools. -/
def runMessages : List Bytes :=
  [text "Executing", text "Execution failure", text "status", text "stdout", text "stderr"]

/-- A note on the course of a compilation or on a temporary file. -/
def IsNote (e : Log.Entry) : Prop := e.kind ∈ noteKinds

/-- What a compilation says by itself: notes, and warnings of tools without success. -/
def IsOwn (e : Log.Entry) : Prop := e.kind ∈ (.warn, setbackMessage) :: noteKinds

theorem isNote_entry {level : Log.Level} {message : String} {fields : List (String × Log.Value)}
    (h : (level, text message) ∈ noteKinds) : IsNote (Log.entry level message fields) := h

theorem IsNote.isOwn {e : Log.Entry} (h : IsNote e) : IsOwn e := List.mem_cons_of_mem _ h

theorem IsOwn.level_ne_error {e : Log.Entry} (h : IsOwn e) : e.level ≠ .error := by
  have hown : ∀ kind ∈ (.warn, setbackMessage) :: noteKinds, kind.1 ≠ .error := by decide
  exact hown e.kind h

theorem IsNote.message_ne_setback {e : Log.Entry} (h : IsNote e) : e.message ≠ setbackMessage := by
  have hnotes : ∀ kind ∈ noteKinds, kind.2 ≠ setbackMessage := by decide
  exact hnotes e.kind h

theorem IsOwn.message_not_mem_runMessages {e : Log.Entry} (h : IsOwn e) :
    e.message ∉ runMessages := by
  have hown : ∀ kind ∈ (.warn, setbackMessage) :: noteKinds, kind.2 ∉ runMessages := by decide
  exact hown e.kind h

/-!
## How a tool ended, in words
-/

theorem text_append (s t : String) : text (s ++ t) = text s ++ text t := by
  rw [text, String.toList_append, List.flatMap_append]
  rfl

theorem Bytes.digits_eq_text (n : Nat) : digits n = text (toString n) := by
  have hencode : digits n = Utf8.encode (Nat.toDigits 10 n) := by
    induction n using Nat.strong_induction_on with
    | h n ih =>
        have hdigit : ∀ d < 10, Utf8.encode [Nat.digitChar d] = [UInt8.ofNat (48 + d)] := by decide
        rw [digits]
        split
        · next hn => rw [Nat.toDigits_of_lt_base hn, hdigit n hn]
        · next hn =>
          have hdigits : Nat.toDigits 10 n = Nat.toDigits 10 (n / 10) ++ [(n % 10).digitChar] :=
            Nat.toDigits_of_base_le (by omega) (by omega)
          rw [ih (n / 10) (by omega), hdigits, ← hdigit (n % 10) (by omega)]
          exact List.flatMap_append.symm
  have hrepr : toString n = String.ofList (Nat.toDigits 10 n) := rfl
  rw [hencode, hrepr, text, String.toList_ofList]
  rfl

theorem Bytes.decimal_eq_text (n : Int) : decimal n = text (toString n) := by
  cases n with
  | ofNat n => exact digits_eq_text n
  | negSucc n =>
      have hrepr : toString (Int.negSucc n) = "-" ++ toString (n + 1) := rfl
      rw [decimal, digits_eq_text, hrepr, text_append]
      rfl

/-- How a tool ended, as messages put it. -/
def endingWords : Ending → Bytes
  | .exited code => text ("exit status: " ++ toString code)
  | .signalled signal => text "signal: " ++ signal
  | .abnormal => text "terminated abnormally"

theorem status_eq_endingWords (execution : Execution) :
    execution.status = endingWords execution.ending := by
  rw [Execution.status]
  cases execution.ending with
  | exited code => rw [endingWords, text_append, ← Bytes.decimal_eq_text]
  | signalled signal => rfl
  | abnormal => rfl

/-!
## Who reports what
-/

theorem message_mem_runMessages {line : Bytes} {answer : Answer} :
    ∀ e ∈ endEntries line answer, e.message ∈ runMessages := by
  cases answer with
  | error fault => simp [endEntries, Log.entry, runMessages]
  | ok execution =>
      intro e he
      simp only [endEntries, List.mem_append, List.mem_cons, List.not_mem_nil, or_false] at he
      rcases he with he | rfl | rfl | rfl
      · split at he
        · cases he
        · obtain rfl := List.mem_singleton.1 he
          simp [Log.entry, runMessages]
      · simp [Log.entry, runMessages]
      · simp [Log.entry, runMessages]
      · simp [Log.entry, runMessages]

section Reports

variable {P : Log.Entry → Prop} {executor : Executor σ}

theorem reports_logged (hrun : ∀ e, e.message ∈ runMessages → P e)
    (h : ∀ args, (executor args).Reports P) (args : List Bytes) :
    (logged executor args).Reports P := by
  refine .bind (.report (hrun _ (by simp [Log.entry, runMessages]))) fun _ => ?_
  refine .bind (h args) fun answer => .bind (.reportAll ?_) fun _ => .pure _
  exact fun e he => hrun e (message_mem_runMessages e he)

namespace Compilation

theorem reports_discardTemp (o : Options) (path : Bytes) :
    (discardTemp o path : Action σ Unit).Reports IsNote := by
  unfold discardTemp
  split
  · exact .report (isNote_entry (by decide))
  · refine .bind (.inspect _) fun removed => ?_
    cases removed with
    | error fault => exact .report (isNote_entry (by decide))
    | ok files =>
        exact .bind (.replaceFiles files) fun _ => .report (isNote_entry (by decide))

theorem reports_checkPreprocessed (path : Bytes) :
    (checkPreprocessed path : Action σ Unit).Reports IsNote := by
  refine .bind (.inspect _) fun found => ?_
  cases found with
  | error fault => exact .report (isNote_entry (by decide))
  | ok entry => exact .pure _

/-- The log of a phase is that of its tool, between notes. -/
theorem exists_runPhase_log (o : Options) (t : Toolchain) (executor : Executor σ) (tool : Tool)
    (files : FileTree) (state : σ) :
    ∃ before after, (∀ e ∈ before, IsNote e) ∧ (∀ e ∈ after, IsNote e) ∧
      (runPhase o t executor tool files state).log =
        before ++ (executor (expectedCommand o t tool) files state).log ++ after := by
  rw [← commandLine_eq_expectedCommand]
  have htidy := fun path (ran : Step σ Answer) => reports_discardTemp o path ran.files ran.tools
  cases tool with
  | preprocessor => exact ⟨[], [], by simp, by simp, by simp [runPhase]⟩
  | compiler =>
      refine ⟨_, _, reports_checkPreprocessed (o.path .preprocessed) files state,
        htidy (o.path .preprocessed) (executor (commandLine o t .compiler) files state), ?_⟩
      simp only [runPhase, Action.bind_log, Action.pure_apply, checkPreprocessed_files,
        checkPreprocessed_tools, List.append_nil, List.append_assoc]
  | assembler =>
      refine ⟨[], _, by simp,
        htidy (o.path .assembly) (executor (commandLine o t .assembler) files state), ?_⟩
      simp only [runPhase, Action.bind_log, Action.pure_apply, List.append_nil, List.nil_append]

theorem reports_runPhase (hown : ∀ e, IsOwn e → P e) (h : ∀ args, (executor args).Reports P)
    (o : Options) (t : Toolchain) (tool : Tool) : (runPhase o t executor tool).Reports P := by
  intro files state e he
  obtain ⟨before, after, hbefore, hafter, hlog⟩ :=
    exists_runPhase_log o t executor tool files state
  rw [hlog, List.mem_append, List.mem_append] at he
  rcases he with (he | he) | he
  · exact hown e (hbefore e he).isOwn
  · exact h _ files state e he
  · exact hown e (hafter e he).isOwn

end Compilation

namespace Pipeline

/-- The warning of a tool that ran without success; of other tools there is none. -/
def setbacks (tool : Tool) : Answer → List Log.Entry
  | .error _ => []
  | .ok execution => if execution.code? = some 0 then []
      else [Log.entry .warn "phase tool did not succeed"
        [("phase", .text tool.name), ("status", .text (endingWords execution.ending))]]

theorem isSuccess_iff {execution : Execution} :
    execution.isSuccess = true ↔ execution.code? = some 0 := by
  unfold Execution.isSuccess Execution.code?
  cases execution.ending <;> simp

/-- The pipeline judges an answer by a note, a warning or nothing. -/
theorem exists_judge_log (tool : Tool) (answer : Answer) (files : FileTree) (state : σ) :
    ∃ notes, (∀ e ∈ notes, IsNote e) ∧
      (judge tool answer files state).log = notes ++ setbacks tool answer := by
  cases answer with
  | error cause => exact ⟨[], by simp, rfl⟩
  | ok execution =>
      unfold judge setbacks
      by_cases hsuccess : execution.isSuccess = true
      · refine ⟨[Log.entry .debug "phase ok" [("phase", .text tool.name)]], ?_, ?_⟩
        · exact List.forall_mem_singleton.2 (isNote_entry (by decide))
        · simp [hsuccess, isSuccess_iff.1 hsuccess]
      · refine ⟨[], by simp, ?_⟩
        simp [hsuccess, mt isSuccess_iff.2 hsuccess, status_eq_endingWords]

theorem isOwn_of_mem_setbacks {tool : Tool} {answer : Answer} :
    ∀ e ∈ setbacks tool answer, IsOwn e := by
  intro e he
  cases answer with
  | error cause => cases he
  | ok execution =>
      simp only [setbacks] at he
      split at he
      · cases he
      · obtain rfl := List.mem_singleton.1 he
        exact List.mem_cons_self

theorem filter_setbacks (tool : Tool) (answer : Answer) :
    (setbacks tool answer).filter (·.message = setbackMessage) = setbacks tool answer := by
  cases answer with
  | error cause => rfl
  | ok execution =>
      simp only [setbacks]
      split
      · rfl
      · simp [Log.entry, setbackMessage]

theorem isNote_enter (s : Stage) :
    IsNote (Log.entry .debug "pipeline state" [("state", .text s.name)]) :=
  List.mem_cons_self

section Drive

variable {phases : Tool → Action σ Answer}

/-- The log of a stage is that of its phase, between notes and in front of the warning. -/
theorem exists_stage_log (phases : Tool → Action σ Answer) (s : Stage) (tool : Tool)
    (files : FileTree) (state : σ) :
    ∃ before after, (∀ e ∈ before, IsNote e) ∧ (∀ e ∈ after, IsNote e) ∧
      (stage phases s tool files state).log = before ++ (phases tool files state).log ++ after ++
        setbacks tool (phases tool files state).value := by
  obtain ⟨notes, hnotes, hjudge⟩ := exists_judge_log tool (phases tool files state).value
    (phases tool files state).files (phases tool files state).tools
  refine ⟨_, notes, List.forall_mem_singleton.2 (isNote_enter s), hnotes, ?_⟩
  simp only [stage, enter, Action.bind_log, Action.report_apply, hjudge, List.append_assoc]

theorem reports_stage (hown : ∀ e, IsOwn e → P e) (h : ∀ tool, (phases tool).Reports P) (s : Stage)
    (tool : Tool) : (stage phases s tool).Reports P := by
  intro files state e he
  obtain ⟨before, after, hbefore, hafter, hlog⟩ := exists_stage_log phases s tool files state
  rw [hlog, List.mem_append, List.mem_append, List.mem_append] at he
  rcases he with ((he | he) | he) | he
  · exact hown e (hbefore e he).isOwn
  · exact h tool files state e he
  · exact hown e (hafter e he).isOwn
  · exact hown e (isOwn_of_mem_setbacks e he)

theorem reports_runPlan (hown : ∀ e, IsOwn e → P e) (h : ∀ tool, (phases tool).Reports P)
    (stages : List (Stage × Tool)) : (runPlan phases stages).Reports P := by
  induction stages with
  | nil => exact .pure _
  | cons next rest ih =>
      refine .bind (reports_stage hown h next.1 next.2) fun outcome => ?_
      cases outcome with
      | error failure => exact .pure _
      | ok => exact ih

/-- A pipeline reports nothing besides what its phases report and what it says by itself. -/
theorem reports_drive (hown : ∀ e, IsOwn e → P e) (h : ∀ tool, (phases tool).Reports P)
    (stopAfterCompile : Bool) : (drive phases stopAfterCompile).Reports P := by
  rw [drive_eq_runPlan]
  refine .bind (reports_runPlan hown h _) fun outcome => ?_
  cases outcome with
  | error failure => exact .pure _
  | ok => exact .bind (.report (hown _ (isNote_enter _).isOwn)) fun _ => .pure _

end Drive

theorem reports_compile (hown : ∀ e, IsOwn e → P e) (h : ∀ args, (executor args).Reports P)
    (o : Options) (t : Toolchain) : (compile o t executor).Reports P :=
  reports_drive hown (Compilation.reports_runPhase hown h o t) _

end Pipeline
end Reports

end CrossCompiler
