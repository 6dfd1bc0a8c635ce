import CrossCompiler.CommandLine.FrontEnd
import CrossCompiler.Proofs.Action
import CrossCompiler.Proofs.Lexer.Tokenize

/-!
# What the front end tells about its input

The front end changes no file.  It finds out whether its input can be read and, if it was asked
to look, whether the input can be cut into tokens; its result and its log above the level of
debugging say exactly this.  Without a lexical analysis nothing about the content matters but its
length.  The command around it adds one exit code, for a command line that orders nothing.
-/

namespace CrossCompiler

/-- The entries of a log above the level of debugging. -/
def Log.notable (log : List Log.Entry) : List Log.Entry := log.filter fun e => e.level ≠ .debug

namespace FrontEnd

open CommandLine

variable {σ : Type}

/-!
## A run of the front end
-/

/-- The entry about a lexical error: what is wrong, in which file and at which line and column,
and what stands there. -/
def errorEntry (input : Bytes) (e : Lexer.Error) : Log.Entry :=
  ⟨.error, e.problem.message,
    [(text "file", .text input),
      (text "pos", .text (Bytes.decimal e.pos.line ++ text ":" ++ Bytes.decimal e.pos.column)),
      (text "text", .text e.text)]⟩

section Run

variable {o : Options} {files : FileTree} {content : Bytes}

theorem run_of_unreadable {fault : FileTree.Fault} (h : files.read o.input = .error fault)
    (state : σ) :
    run o files state = ⟨.error ⟨o.input, fault⟩, files, state,
      [Log.entry .debug "loading" [("path", .text o.input)]]⟩ := by
  rw [run, Action.bind_of_eq _ _ files state (Action.report_apply files state _),
    Action.inspect_bind, h]
  rfl

theorem run_of_not_lex (h : files.read o.input = .ok content) (hlex : o.lex = false)
    (state : σ) :
    run o files state = ⟨.ok .ok, files, state,
      [Log.entry .debug "loading" [("path", .text o.input)],
        Log.entry .debug "read" [("bytes", .number content.length)],
        Log.entry .warn "parsing and code generation are not implemented yet"
          [("architecture", .text o.platform.name), ("output", .text o.output)]]⟩ := by
  rw [run, Action.bind_of_eq _ _ files state (Action.report_apply files state _),
    Action.inspect_bind, h]
  simp only [hlex, Bool.false_eq_true, if_false]
  rfl

/-- An analysis that was asked for decides about the run. -/
theorem run_of_lex (h : files.read o.input = .ok content) (hlex : o.lex = true) {state : σ}
    {code : ExitCode} {log : List Log.Entry}
    (hanalyse : analyse o content files state = ⟨code, files, state, log⟩) :
    run o files state = ⟨.ok code, files, state,
      Log.entry .debug "loading" [("path", .text o.input)] ::
        Log.entry .debug "read" [("bytes", .number content.length)] :: log⟩ := by
  rw [run, Action.bind_of_eq _ _ files state (Action.report_apply files state _),
    Action.inspect_bind, h]
  simp [hlex, Action.bind_of_eq _ _ files state hanalyse]

theorem analyse_of_tokens (o : Options) {tokens : List Token}
    (h : Lexer.tokenize content = .ok tokens) (files : FileTree) (state : σ) :
    analyse o content files state = ⟨.ok, files, state,
      [Log.entry .debug "lexical analysis finished" [("took", .elapsed)],
        Log.entry .info "lexical analysis successful"
          [("tokens", .number tokens.length)]]⟩ := by
  rw [analyse, Action.bind_of_eq _ _ files state (Action.report_apply files state _),
    Action.bind_of_eq _ _ files state (Action.reportAll_apply files state _), h]
  rfl

theorem analyse_of_errors (o : Options) {errors : List Lexer.Error}
    (h : Lexer.tokenize content = .error errors) (files : FileTree) (state : σ) :
    analyse o content files state = ⟨.dataError, files, state,
      Log.entry .debug "lexical analysis finished" [("took", .elapsed)] ::
        Log.entry .error "lexical analysis unsuccessful" [("errors", .number errors.length)] ::
        errors.map (errorEntry o.input)⟩ := by
  rw [analyse, Action.bind_of_eq _ _ files state (Action.report_apply files state _),
    Action.bind_of_eq _ _ files state (Action.reportAll_apply files state _), h]
  simp only [lexicalEntries, Action.pure_apply, List.append_nil, List.singleton_append]
  rfl

theorem run_of_tokens (h : files.read o.input = .ok content) (hlex : o.lex = true)
    {tokens : List Token} (hfound : Lexer.tokenize content = .ok tokens) (state : σ) :
    run o files state = ⟨.ok .ok, files, state,
      [Log.entry .debug "loading" [("path", .text o.input)],
        Log.entry .debug "read" [("bytes", .number content.length)],
        Log.entry .debug "lexical analysis finished" [("took", .elapsed)],
        Log.entry .info "lexical analysis successful" [("tokens", .number tokens.length)]]⟩ :=
  run_of_lex h hlex (analyse_of_tokens o hfound files state)

theorem run_of_errors (h : files.read o.input = .ok content) (hlex : o.lex = true)
    {errors : List Lexer.Error} (hfound : Lexer.tokenize content = .error errors) (state : σ) :
    run o files state = ⟨.ok .dataError, files, state,
      Log.entry .debug "loading" [("path", .text o.input)] ::
        Log.entry .debug "read" [("bytes", .number content.length)] ::
        Log.entry .debug "lexical analysis finished" [("took", .elapsed)] ::
        Log.entry .error "lexical analysis unsuccessful" [("errors", .number errors.length)] ::
        errors.map (errorEntry o.input)⟩ :=
  run_of_lex h hlex (analyse_of_errors o hfound files state)

end Run

/-- What a run can find out, with the value that tells it. -/
inductive Findings (o : Options) (files : FileTree) : Except Unreadable ExitCode → Prop
  | unreadable {fault : FileTree.Fault} (hread : files.read o.input = .error fault) :
      Findings o files (.error ⟨o.input, fault⟩)
  | unlexed {content : Bytes} (hread : files.read o.input = .ok content) (hlex : o.lex = false) :
      Findings o files (.ok .ok)
  | tokens {content : Bytes} {tokens : List Token} (hread : files.read o.input = .ok content)
      (hlex : o.lex = true) (hfound : Lexer.tokenize content = .ok tokens) :
      Findings o files (.ok .ok)
  | errors {content : Bytes} {errors : List Lexer.Error}
      (hread : files.read o.input = .ok content) (hlex : o.lex = true)
      (hfound : Lexer.tokenize content = .error errors) : Findings o files (.ok .dataError)

/-- A run finds out one of these things and changes nothing. -/
theorem run_findings (o : Options) (files : FileTree) (state : σ) :
    ∃ value log, run o files state = ⟨value, files, state, log⟩ ∧ Findings o files value := by
  cases hread : files.read o.input with
  | error fault => exact ⟨_, _, run_of_unreadable hread state, .unreadable hread⟩
  | ok content =>
      cases hlex : o.lex with
      | false => exact ⟨_, _, run_of_not_lex hread hlex state, .unlexed hread hlex⟩
      | true =>
          cases hfound : Lexer.tokenize content with
          | ok tokens =>
              exact ⟨_, _, run_of_tokens hread hlex hfound state, .tokens hread hlex hfound⟩
          | error errors =>
              exact ⟨_, _, run_of_errors hread hlex hfound state, .errors hread hlex hfound⟩

namespace Findings

variable {o : Options} {files : FileTree} {value : Except Unreadable ExitCode}

theorem isError_iff (h : Findings o files value) :
    (∃ u, value = .error u) ↔ ∀ content, files.read o.input ≠ .ok content := by
  cases h with
  | unreadable hread => simp [hread]
  | unlexed hread hlex => simp [hread]
  | tokens hread hlex hfound => simp [hread]
  | errors hread hlex hfound => simp [hread]

theorem isError_iff_unavailable (h : Findings o files value) :
    (∃ u, value = .error u) ↔ exitCode value = .unavailable := by
  cases h with
  | unreadable hread => simp [exitCode]
  | unlexed hread hlex => simp [exitCode]
  | tokens hread hlex hfound => simp [exitCode]
  | errors hread hlex hfound => simp [exitCode]

theorem exitCode_cases (h : Findings o files value) :
    exitCode value = .ok ∨ exitCode value = .dataError ∨ exitCode value = .unavailable := by
  cases h with
  | unreadable hread => exact .inr (.inr rfl)
  | unlexed hread hlex => exact .inl rfl
  | tokens hread hlex hfound => exact .inl rfl
  | errors hread hlex hfound => exact .inr (.inl rfl)

theorem exitCode_eq_dataError_iff (h : Findings o files value) :
    exitCode value = .dataError ↔ o.lex = true ∧ ∃ content errors,
      files.read o.input = .ok content ∧ Lexer.tokenize content = .error errors := by
  cases h with
  | unreadable hread => simp [hread, exitCode]
  | unlexed hread hlex => simp [hlex, exitCode]
  | tokens hread hlex hfound => simp [hread, hfound, exitCode]
  | errors hread hlex hfound => simp [hread, hlex, hfound, exitCode]

end Findings

/-!
## The command line
-/

/-- The front end takes some arguments for an order to compile, with these options. -/
def Accepts (files : FileTree) (args : List Bytes) (o : Options) : Prop :=
  let parsed := parse flags args
  let s := Settings.ofParsed parsed
  parsed.mistake = none ∧ s.help = false ∧ s.version = false ∧
    validate files s parsed.positionals = .ok o

/-- The front end's own result becomes the exit code. -/
theorem exists_process (o : Options) (files : FileTree) (state : σ) :
    ∃ result log, process o files state = ⟨result, files, state, log⟩ ∧
      result.code = exitCode (run o files state).value := by
  obtain ⟨value, log, hrun, -⟩ := run_findings o files state
  rw [process, Action.bind_of_eq _ _ files state (Action.report_apply files state _),
    Action.bind_of_eq _ _ files state hrun, hrun]
  cases value with
  | ok code => exact ⟨_, _, rfl, rfl⟩
  | error unreadable => exact ⟨_, _, rfl, rfl⟩

/-- A source that can be read is found faulty only by a lexical analysis that was asked for. -/
theorem code_process {o : Options} {files : FileTree} {content : Bytes}
    (hread : files.read o.input = .ok content) (state : σ) :
    ((process o files state).value.code = .dataError ↔
      o.lex = true ∧ ∃ errors, Lexer.tokenize content = .error errors) ∧
    ((process o files state).value.code = .dataError ∨
      (process o files state).value.code = .ok) := by
  obtain ⟨result, _, hprocess, hcode⟩ := exists_process o files state
  obtain ⟨value, _, hrun, hfindings⟩ := run_findings o files state
  rw [hprocess, hcode, hrun]
  refine ⟨?_, ?_⟩
  · rw [hfindings.exitCode_eq_dataError_iff]
    simp [hread]
  · cases hfindings with
    | unreadable hfault => simp [hread] at hfault
    | unlexed _ hlex => exact .inr rfl
    | tokens _ hlex hfound => exact .inr rfl
    | errors _ hlex hfound => exact .inl rfl

/-- The command line orders nothing at all, or its orders are seen when the file is looked for. -/
theorem dispatch_cases (args : List Bytes) :
    (∃ finished, finished.result.code = .usage ∧
      ∀ files (state : σ), dispatch args files state = ⟨finished, files, state, []⟩) ∨
    ∃ s, (∀ files o, validate files s (parse flags args).positionals = .ok o →
        Accepts files args o) ∧
      ∀ files objection (state : σ),
        validate files s (parse flags args).positionals = .error objection →
        dispatch args files state = ⟨⟨.rejected objection.message, s⟩, files, state, []⟩ := by
  unfold dispatch
  cases hmistake : (parse flags args).mistake with
  | some m => exact .inl ⟨⟨.rejected m.message, _⟩, rfl, fun _ _ => rfl⟩
  | none =>
      cases hhelp : (Settings.ofParsed (parse flags args)).help with
      | true => exact .inl ⟨⟨.printed rootHelp, _⟩, rfl, fun _ _ => rfl⟩
      | false =>
          cases hversion : (Settings.ofParsed (parse flags args)).version with
          | true => exact .inl ⟨⟨.printed _, _⟩, rfl, fun _ _ => rfl⟩
          | false =>
              -- Only here are the files looked at, so only here does the answer depend on them.
              refine .inr ⟨_, fun files o hvalid => ⟨hmistake, hhelp, hversion, hvalid⟩, ?_⟩
              intro files objection state hvalid
              simp [Action.inspect_bind, hvalid]

/-- An order to compile is done with the accepted options. -/
theorem dispatch_of_accepts {files : FileTree} {args : List Bytes} {o : Options}
    (h : Accepts files args o) {state : σ} {result : Result} {log : List Log.Entry}
    (hprocess : process o files state = ⟨result, files, state, log⟩) :
    dispatch args files state =
      ⟨⟨result, .ofParsed (parse flags args)⟩, files, state, log⟩ := by
  obtain ⟨hmistake, hhelp, hversion, hvalid⟩ := h
  simp only [dispatch, hmistake, hhelp, hversion, Bool.false_eq_true, if_false,
    Action.inspect_bind, hvalid, Action.bind_of_eq _ _ files state hprocess, Action.pure_apply,
    List.append_nil]

theorem dispatch_of_not_accepts {files : FileTree} {args : List Bytes}
    (h : ∀ o, ¬ Accepts files args o) :
    ∃ finished, finished.result.code = .usage ∧
      ∀ state : σ, dispatch args files state = ⟨finished, files, state, []⟩ := by
  rcases dispatch_cases (σ := σ) args with ⟨finished, hcode, hdispatch⟩ | ⟨s, haccepts, hrejects⟩
  · exact ⟨finished, hcode, hdispatch files⟩
  · cases hvalid : validate files s (parse flags args).positionals with
    | ok o => exact absurd (haccepts files o hvalid) (h o)
    | error objection => exact ⟨_, rfl, fun state => hrejects files objection state hvalid⟩

/-- Without a file on the command line the front end looks at none. -/
theorem dispatch_of_no_file {args : List Bytes} (h : (parse flags args).positionals = []) :
    ∃ finished, finished.result.code = .usage ∧
      ∀ files (state : σ), dispatch args files state = ⟨finished, files, state, []⟩ := by
  rcases dispatch_cases (σ := σ) args with hnothing | ⟨s, -, hrejects⟩
  · exact hnothing
  · refine ⟨⟨.rejected Objection.noFile.message, s⟩, rfl, fun files state => ?_⟩
    exact hrejects files .noFile state (by rw [h]; rfl)

/-- The end of a command is reported behind what was reported before, and nothing else is done. -/
theorem runCommand_of_dispatch (args : List Bytes) (finished : Finished) :
    ∃ behind, ∀ {files : FileTree} {state : σ} {log : List Log.Entry},
      dispatch args files state = ⟨finished, files, state, log⟩ →
      runCommand args files state = ⟨finished, files, state, log ++ behind⟩ := by
  have hend : ∃ behind, ∀ files (state : σ),
      reportEnd finished.result none files state = ⟨(), files, state, behind⟩ := by
    unfold reportEnd
    cases finished.result.problem with
    | some problem => exact ⟨_, fun _ _ => rfl⟩
    | none => exact ⟨_, fun _ _ => rfl⟩
  obtain ⟨behind, hreport⟩ := hend
  refine ⟨behind, fun {files state log} hdispatch => ?_⟩
  rw [runCommand, Action.bind_of_eq _ _ files state hdispatch,
    Action.bind_of_eq _ _ files state (hreport files state), Action.pure_apply, List.append_nil]

theorem runCommand_of_no_file {args : List Bytes} (h : (parse flags args).positionals = []) :
    ∃ finished log, finished.result.code = .usage ∧
      ∀ files (state : σ), runCommand args files state = ⟨finished, files, state, log⟩ := by
  obtain ⟨finished, hcode, hdispatch⟩ := dispatch_of_no_file (σ := σ) h
  obtain ⟨behind, hrun⟩ := runCommand_of_dispatch (σ := σ) args finished
  exact ⟨finished, _, hcode, fun files state => hrun (hdispatch files state)⟩

theorem runCommand_of_accepts {files : FileTree} {args : List Bytes} {o : Options}
    (h : Accepts files args o) (state : σ) :
    ∃ finished log, runCommand args files state = ⟨finished, files, state, log⟩ ∧
      finished.result = (process o files state).value := by
  obtain ⟨result, log, hprocess, -⟩ := exists_process o files state
  obtain ⟨behind, hrun⟩ := runCommand_of_dispatch (σ := σ) args
    ⟨result, .ofParsed (parse flags args)⟩
  refine ⟨_, _, hrun (dispatch_of_accepts h hprocess), ?_⟩
  rw [hprocess]

/-- The result of an order to compile is that of the front end with the accepted options. -/
theorem result_of_accepts {files : FileTree} {args : List Bytes} {o : Options}
    (h : Accepts files args o) (state : σ) :
    (runCommand args files state).value.result = (process o files state).value := by
  obtain ⟨finished, _, hrun, hresult⟩ := runCommand_of_accepts h state
  rw [hrun, hresult]

theorem code_of_accepts {files : FileTree} {args : List Bytes} {o : Options}
    (h : Accepts files args o) (state : σ) :
    (runCommand args files state).value.result.code = exitCode (run o files state).value := by
  obtain ⟨result, _, hprocess, hcode⟩ := exists_process o files state
  rw [result_of_accepts h, hprocess, hcode]

theorem runCommand_of_not_accepts {files : FileTree} {args : List Bytes}
    (h : ∀ o, ¬ Accepts files args o) (state : σ) :
    ∃ finished log, runCommand args files state = ⟨finished, files, state, log⟩ ∧
      finished.result.code = .usage := by
  obtain ⟨finished, hcode, hdispatch⟩ := dispatch_of_not_accepts (σ := σ) h
  obtain ⟨behind, hrun⟩ := runCommand_of_dispatch (σ := σ) args finished
  exact ⟨finished, _, hrun (hdispatch state), hcode⟩

/-- The command changes nothing either, and there are two ways to its exit code. -/
theorem runCommand_cases (args : List Bytes) (files : FileTree) (state : σ) :
    ∃ finished log, runCommand args files state = ⟨finished, files, state, log⟩ ∧
      ((∃ o, Accepts files args o ∧
          finished.result.code = exitCode (run o files state).value) ∨
        (∀ o, ¬ Accepts files args o) ∧ finished.result.code = .usage) := by
  by_cases h : ∃ o, Accepts files args o
  · obtain ⟨o, ho⟩ := h
    obtain ⟨finished, log, hrun, -⟩ := runCommand_of_accepts ho state
    have hcode := code_of_accepts ho state
    rw [hrun] at hcode
    exact ⟨finished, log, hrun, .inl ⟨o, ho, hcode⟩⟩
  · have hnone : ∀ o, ¬ Accepts files args o := not_exists.1 h
    obtain ⟨finished, log, hrun, hcode⟩ := runCommand_of_not_accepts hnone state
    exact ⟨finished, log, hrun, .inr ⟨hnone, hcode⟩⟩

theorem code_cases (args : List Bytes) (files : FileTree) (state : σ) :
    (runCommand args files state).value.result.code ∈
      [ExitCode.ok, .usage, .dataError, .unavailable] := by
  obtain ⟨finished, _, hrun, ⟨o, -, hcode⟩ | ⟨-, hcode⟩⟩ := runCommand_cases args files state
  · obtain ⟨value, _, hvalue, hfindings⟩ := run_findings o files state
    rw [hrun, hcode, hvalue]
    rcases hfindings.exitCode_cases with h | h | h <;> rw [h] <;> decide
  · rw [hrun, hcode]
    decide

theorem code_eq_usage_iff (args : List Bytes) (files : FileTree) (state : σ) :
    (runCommand args files state).value.result.code = .usage ↔
      ∀ o, ¬ Accepts files args o := by
  obtain ⟨finished, _, hrun, ⟨o, ho, hcode⟩ | ⟨hnone, hcode⟩⟩ := runCommand_cases args files state
  · obtain ⟨value, _, hvalue, hfindings⟩ := run_findings o files state
    rw [hrun, hcode, hvalue]
    constructor
    · intro husage
      rcases hfindings.exitCode_cases with h | h | h <;> rw [h] at husage <;> cases husage
    · intro hnone
      exact absurd ho (hnone o)
  · rw [hrun]
    exact iff_of_true hcode hnone

theorem code_eq_dataError_iff (args : List Bytes) (files : FileTree) (state : σ) :
    (runCommand args files state).value.result.code = .dataError ↔
      ∃ o content errors, Accepts files args o ∧ o.lex = true ∧
        files.read o.input = .ok content ∧ Lexer.tokenize content = .error errors := by
  constructor
  · intro hcode
    obtain ⟨finished, _, hrun, ⟨o, ho, heq⟩ | ⟨-, husage⟩⟩ := runCommand_cases args files state
    · obtain ⟨value, _, hvalue, hfindings⟩ := run_findings o files state
      rw [hrun, heq, hvalue] at hcode
      obtain ⟨hlex, content, errors, hread, hfound⟩ := hfindings.exitCode_eq_dataError_iff.1 hcode
      exact ⟨o, content, errors, ho, hlex, hread, hfound⟩
    · rw [hrun, husage] at hcode
      cases hcode
  · rintro ⟨o, content, errors, ho, hlex, hread, hfound⟩
    obtain ⟨value, _, hvalue, hfindings⟩ := run_findings o files state
    rw [code_of_accepts ho, hvalue]
    exact hfindings.exitCode_eq_dataError_iff.2 ⟨hlex, content, errors, hread, hfound⟩

/-!
## The lexical state of the input
-/

theorem notable_map_errorEntry (input : Bytes) (errors : List Lexer.Error) :
    Log.notable (errors.map (errorEntry input)) = errors.map (errorEntry input) := by
  rw [Log.notable, List.filter_eq_self]
  intro entry hentry
  obtain ⟨e, -, rfl⟩ := List.mem_map.1 hentry
  rfl

/-- The front end reports exactly the lexical state of its input and writes nothing.  It fails
just where the input cannot be read.  An analysis that finds only tokens reports their number,
and any other one reports the number of errors and then every error of the source, once and in
the order of the source.  Where there is no analysis, readable inputs differ in nothing but the
reported number of bytes.  The exit code of the command comes from the front end, except where
the command line is not an order to compile. -/
theorem run_reports_lexical_state (o : Options) (args : List Bytes) (files : FileTree)
    (state : σ) :
    let done := run o files state
    let ended := runCommand args files state
    let code := ended.value.result.code
    (done.files = files ∧
      ((∃ u, done.value = .error u) ↔ ∀ content, files.read o.input ≠ .ok content) ∧
      ((∃ u, done.value = .error u) ↔ exitCode done.value = .unavailable)) ∧
    (∀ content, files.read o.input = .ok content → o.lex = true →
      (done.value = .ok .ok ↔ ∃ tokens, Lexer.tokenize content = .ok tokens) ∧
      (∀ tokens, Lexer.tokenize content = .ok tokens →
        Log.notable done.log = [Log.entry .info "lexical analysis successful"
          [("tokens", .number tokens.length)]]) ∧
      ∀ errors, Lexer.tokenize content = .error errors →
        done.value = .ok .dataError ∧
        Log.notable done.log = Log.entry .error "lexical analysis unsuccessful"
          [("errors", .number errors.length)] :: errors.map (errorEntry o.input) ∧
        (∀ e, e ∈ errors ↔ .error e ∈ Lexer.items (.ofBytes content)) ∧
        errors.Pairwise fun e f => e.pos.offset < f.pos.offset) ∧
    (o.lex = false → ∃ before behind, ∀ {files' content} {state' : σ},
      FileTree.read files' o.input = .ok content →
      run o files' state' = ⟨.ok .ok, files', state',
        before ++ Log.entry .debug "read" [("bytes", .number content.length)] :: behind⟩) ∧
    ended.files = files ∧ code ∈ [ExitCode.ok, .usage, .dataError, .unavailable] ∧
    (∀ accepted, Accepts files args accepted →
      code = exitCode (run accepted files state).value) ∧
    (code = .usage ↔ ∀ accepted, ¬ Accepts files args accepted) ∧
    (code = .dataError ↔ ∃ accepted content errors, Accepts files args accepted ∧
      accepted.lex = true ∧ files.read accepted.input = .ok content ∧
      Lexer.tokenize content = .error errors) := by
  intro done ended code
  obtain ⟨value, log, hrun, hfindings⟩ := run_findings o files state
  refine ⟨⟨?_, ?_, ?_⟩, ?_, ?_, ?_, ?_, ?_, ?_, ?_⟩
  · exact congrArg Step.files hrun
  · rw [show done.value = value from congrArg Step.value hrun]
    exact hfindings.isError_iff
  · rw [show done.value = value from congrArg Step.value hrun]
    exact hfindings.isError_iff_unavailable
  · intro content hread hlex
    refine ⟨?_, ?_, ?_⟩
    · cases hfound : Lexer.tokenize content with
      | ok tokens => simp [done, run_of_tokens hread hlex hfound]
      | error errors => simp [done, run_of_errors hread hlex hfound]
    · intro tokens hfound
      rw [show done = _ from run_of_tokens hread hlex hfound state]
      -- Of the four entries only the last one is not for debugging.
      rfl
    · intro errors hfound
      rw [show done = _ from run_of_errors hread hlex hfound state]
      refine ⟨rfl, ?_, ?_, Lexer.pairwise_offset_of_tokenize hfound⟩
      · exact congrArg _ (notable_map_errorEntry o.input errors)
      · intro e
        rw [Lexer.eq_errorsOf_of_tokenize hfound, Lexer.mem_errorsOf]
  · intro hlex
    exact ⟨[_], [_], fun hread => run_of_not_lex hread hlex _⟩
  · obtain ⟨finished, _, hended, -⟩ := runCommand_cases args files state
    exact congrArg Step.files hended
  · exact code_cases args files state
  · exact fun accepted haccepted => code_of_accepts haccepted state
  · exact code_eq_usage_iff args files state
  · exact code_eq_dataError_iff args files state

end FrontEnd
end CrossCompiler
