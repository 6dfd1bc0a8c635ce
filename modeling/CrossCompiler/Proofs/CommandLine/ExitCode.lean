import CrossCompiler.CommandLine.Driver
import CrossCompiler.Proofs.Compilation.Entries
import CrossCompiler.Proofs.FileTree

/-!
# What the driver's exit code tells

A run of the driver takes one of four courses: it compiles, it writes the default profile, it
fails to write it, or it does nothing at all.  The exit code tells them apart, and it never
depends on how a tool ended that could be run.  Whatever the course, the end is reported once,
behind everything else.
-/

namespace CrossCompiler

variable {σ : Type}

/-!
## The report of the end
-/

namespace CommandLine

/-- The messages that tell of the end of a command. -/
def farewells : List Bytes := [text "Exiting with error", text "Exiting"]

/-- Whether an entry tells of the end of a command, at whatever level. -/
def IsFarewell (e : Log.Entry) : Prop := e.message ∈ farewells

theorem not_isFarewell {level : Log.Level} {message : String} {fields : List (String × Log.Value)}
    (h : text message ∉ farewells) : ¬ IsFarewell (Log.entry level message fields) := h

/-- An action that leaves it to others to report the end. -/
def GoesOn {α : Type} (a : Action σ α) : Prop := Action.Reports (fun e => ¬ IsFarewell e) a

theorem goesOn_report {level : Log.Level} {message : String} {fields : List (String × Log.Value)}
    (h : text message ∉ farewells) :
    GoesOn (Action.report (Log.entry level message fields) : Action σ Unit) :=
  Action.Reports.report (not_isFarewell h)

/-- The end of a command is the last thing it reports, behind a word on a command that was not
asked to do its main work. -/
theorem reportEnd_cases (result : Result) (idle : Option Log.Entry) :
    ∃ front last, (∀ e ∈ front, e ∈ idle) ∧
      (last.level = .error ∧ last.message = text "Exiting with error" ∨
        last.level = .debug ∧ last.message = text "Exiting") ∧
      ∀ {σ : Type} (files : FileTree) (tools : σ),
        reportEnd result idle files tools = ⟨(), files, tools, front ++ [last]⟩ := by
  unfold reportEnd
  cases result.problem with
  | some problem => exact ⟨[], _, by simp, .inl ⟨rfl, rfl⟩, fun _ _ => rfl⟩
  | none => exact ⟨idle.toList, _, by simp, .inr ⟨rfl, rfl⟩, fun _ _ => rfl⟩

end CommandLine

open CommandLine

theorem scripted_goesOn (args : List Bytes) : GoesOn (scripted args) := by
  intro files script e he
  cases he

theorem isOwn_not_isFarewell {e : Log.Entry} (h : IsOwn e) : ¬ IsFarewell e := by
  have hown : ∀ kind ∈ (.warn, setbackMessage) :: noteKinds, kind.2 ∉ farewells := by decide
  exact hown e.kind h

theorem logged_goesOn {executor : Executor σ} (h : ∀ args, GoesOn (executor args))
    (args : List Bytes) : GoesOn (logged executor args) := by
  have hrun : ∀ message ∈ runMessages, message ∉ farewells := by decide
  exact reports_logged (fun e => hrun e.message) h args

namespace Pipeline

/-- A pipeline leaves the report of the end to others if its executor does. -/
theorem compile_goesOn {executor : Executor σ} (h : ∀ args, GoesOn (executor args))
    (o : Compilation.Options) (t : Toolchain) : GoesOn (compile o t executor) :=
  reports_compile (fun _ => isOwn_not_isFarewell) h o t

theorem exitCode_cases (outcome : Outcome) :
    exitCode outcome = .ok ∨ exitCode outcome = .unavailable := by
  cases outcome with
  | error failure => exact .inr rfl
  | ok => exact .inl rfl

/-- A compilation calls some tool. -/
theorem History.calls_ne_nil {o : Compilation.Options} {t : Toolchain} {calls : List Call}
    {outcome : Outcome} (h : History o t calls outcome) : calls ≠ [] := by
  cases h <;> simp

end Pipeline

/-!
## The courses of a run
-/

namespace Driver

open Compilation (Options)

/-- The arguments ask for the default profile to be written to a path: they name the subcommand
for that, and what is left of them makes no mistake, does not ask for help and names nothing
else. -/
def AsksForProfile (env : Environment) (args : List Bytes) (path : Bytes) : Prop :=
  ∃ others, command env args = .toolchain others ∧
    (parse toolchainFlags others).mistake = none ∧
    (parse toolchainFlags others).positionals = [] ∧
    (parse toolchainFlags others).settings.foldl toolchainSetting (false, standardProfile) =
      (false, path)

theorem AsksForProfile.unique {env : Environment} {args : List Bytes} {path path' : Bytes}
    (h : AsksForProfile env args path) (h' : AsksForProfile env args path') : path = path' := by
  obtain ⟨others, hcommand, -, -, hpath⟩ := h
  obtain ⟨others', hcommand', -, -, hpath'⟩ := h'
  obtain rfl := Command.toolchain.inj (hcommand.symm.trans hcommand')
  exact congrArg Prod.snd (hpath.symm.trans hpath')

/-- The courses a run of the driver can take: the tools it calls, the files it leaves and its
exit code. -/
inductive Course (env : Environment) (args : List Bytes) (files : FileTree) :
    List Call → FileTree → ExitCode → Prop
  | idle (unasked : ∀ path, ¬ AsksForProfile env args path) :
      Course env args files [] files .usage
  | compiled (unasked : ∀ path, ¬ AsksForProfile env args path) {o : Options} {t : Toolchain}
      {calls : List Call} {outcome : Pipeline.Outcome}
      (history : Pipeline.History o t calls outcome)
      (after : FileTree) :
      Course env args files calls after (Pipeline.exitCode outcome)
  | written {path : Bytes} {after : FileTree} (asked : AsksForProfile env args path)
      (saved : files.write path (Profile.encode .standard) = .ok after) :
      Course env args files [] after .ok
  | unwritten {path : Bytes} {fault : FileTree.Fault} (asked : AsksForProfile env args path)
      (failed : files.write path (Profile.encode .standard) = .error fault) :
      Course env args files [] files .unavailable

variable {env : Environment} {args : List Bytes} {files : FileTree}

namespace Course

variable {calls : List Call} {after : FileTree} {code : ExitCode}

theorem code_cases (h : Course env args files calls after code) :
    code = .ok ∨ code = .usage ∨ code = .unavailable := by
  cases h with
  | idle => exact .inr (.inl rfl)
  | compiled => exact (Pipeline.exitCode_cases _).imp_right .inr
  | written => exact .inl rfl
  | unwritten => exact .inr (.inr rfl)

theorem of_usage (h : Course env args files calls after .usage) : calls = [] ∧ after = files := by
  generalize hcode : ExitCode.usage = code at h
  cases h with
  | idle => exact ⟨rfl, rfl⟩
  | compiled => rcases Pipeline.exitCode_cases _ with h | h <;> cases hcode.trans h
  | written => cases hcode
  | unwritten => cases hcode

/-- Once a tool has been called, only the answers count. -/
theorem of_calls (h : Course env args files calls after code) (hcalls : calls ≠ []) :
    ((∀ call ∈ calls, ∃ execution, call.answer = .ok execution) → code = .ok) ∧
    ((∃ call ∈ calls, ∃ fault, call.answer = .error fault) → code = .unavailable) := by
  cases h with
  | idle => exact absurd rfl hcalls
  | compiled _ history =>
      refine ⟨history.exitCode_eq_ok_iff.2, ?_⟩
      rintro ⟨call, hmem, fault, hfault⟩
      rcases Pipeline.exitCode_cases _ with hok | hunavailable
      · obtain ⟨execution, hran⟩ := history.exitCode_eq_ok_iff.1 hok call hmem
        rw [hfault] at hran
        cases hran
      · exact hunavailable
  | written => exact absurd rfl hcalls
  | unwritten => exact absurd rfl hcalls

theorem of_not_asked (h : Course env args files [] after code)
    (hasked : ∀ path, ¬ AsksForProfile env args path) : code = .usage := by
  generalize hcalls : ([] : List Call) = calls at h
  cases h with
  | idle => rfl
  | compiled _ history => exact absurd hcalls.symm history.calls_ne_nil
  | written asked => exact absurd asked (hasked _)
  | unwritten asked => exact absurd asked (hasked _)

/-- A profile that was asked for is there afterwards, unless the run reports that it could not be
written. -/
theorem of_asked (h : Course env args files calls after code) {path : Bytes}
    (hasked : AsksForProfile env args path) :
    calls = [] ∧
    (code = .ok ↔ files.write path (Profile.encode .standard) = .ok after) ∧
    (code = .ok ↔ after.read path = .ok (Profile.encode .standard)) ∧
    (code ≠ .ok → code = .unavailable ∧ after = files) := by
  cases h with
  | idle unasked => exact absurd hasked (unasked path)
  | compiled unasked => exact absurd hasked (unasked path)
  | written asked saved =>
      obtain rfl := hasked.unique asked
      exact ⟨rfl, by simp [saved], by simp [FileTree.read_of_write saved], by simp⟩
  | unwritten asked failed =>
      obtain rfl := hasked.unique asked
      -- What stands there already cannot be the profile: it could be written over then.
      have hread : files.read path ≠ .ok (Profile.encode .standard) := by
        intro hread
        obtain ⟨after, hwrite⟩ := FileTree.write_of_read hread (Profile.encode .standard)
        rw [failed] at hwrite
        cases hwrite
      exact ⟨rfl, by simp [failed], by simp [hread], by simp⟩

end Course

/-!
## The course a run takes

What the driver does is settled by its arguments and by the files it finds, before any tool is
called.
-/

/-- The driver's own work is given up at once, or it is a compilation. -/
theorem runCompile_cases (env : Environment) (args : List Bytes) (files : FileTree) :
    (∃ finished : Finished, finished.result.code = .usage ∧
      ∀ {σ : Type} (choose : Settings → Options → Executor σ) (state : σ),
        runCompile env choose args files state = ⟨finished, files, state, []⟩) ∨
    ∃ s o, ∀ {σ : Type} (choose : Settings → Options → Executor σ) (state : σ),
      runCompile env choose args files state =
        (compile (choose s o) s o >>= fun result => pure ⟨result, s, true⟩) files state := by
  let s := Settings.ofParsed env (parse (flags env) args)
  cases hmistake : (parse (flags env) args).mistake with
  | some m =>
      exact .inl ⟨⟨.rejected m.message, s, false⟩, rfl, fun choose state => by
        simp [runCompile, hmistake, s]⟩
  | none =>
      by_cases hhelp : s.help = true
      · exact .inl ⟨⟨.printed (rootHelp env), s, false⟩, rfl, fun choose state => by
          simp [runCompile, hmistake, hhelp, s]⟩
      by_cases hversion : s.version = true
      · exact .inl ⟨⟨.printed (text "rcc version " ++ text version ++ text "\n"), s, false⟩, rfl,
          fun choose state => by simp [runCompile, hmistake, hhelp, hversion, s]⟩
      -- Neither help nor version is asked for, so the files decide.
      have hrun : ∀ {σ : Type} (choose : Settings → Options → Executor σ), ∃ next,
          runCompile env choose args =
            Action.inspect (fun files => validate files s (parse (flags env) args).positionals) >>=
              next ∧
          (∀ objection, next (.error objection) = pure ⟨.rejected objection.message, s, false⟩) ∧
          ∀ o, next (.ok o) =
            compile (choose s o) s o >>= fun result => pure ⟨result, s, true⟩ := by
        intro σ choose
        unfold runCompile
        simp only [hmistake]
        exact ⟨_, (if_neg hhelp).trans (if_neg hversion), fun _ => rfl, fun _ => rfl⟩
      cases hvalid : validate files s (parse (flags env) args).positionals with
      | error objection =>
          refine .inl ⟨⟨.rejected objection.message, s, false⟩, rfl, fun choose state => ?_⟩
          obtain ⟨next, hnext, herror, -⟩ := hrun choose
          rw [hnext, Action.inspect_bind, hvalid, herror, Action.pure_apply]
      | ok o =>
          refine .inr ⟨s, o, fun choose state => ?_⟩
          obtain ⟨next, hnext, -, hok⟩ := hrun choose
          rw [hnext, Action.inspect_bind, hvalid, hok]

theorem runHelp_code (env : Environment) (args : List Bytes) :
    (runHelp env args).code = .usage := by
  unfold runHelp
  dsimp only
  split
  · rfl
  · split
    · rfl
    · split <;> rfl

/-- The subcommand writes the profile if it is asked to, and is given up at once otherwise. -/
theorem runToolchain_cases (args : List Bytes) :
    (∃ result : Result, result.code = .usage ∧
      (∀ path, ¬ ((parse toolchainFlags args).mistake = none ∧
        (parse toolchainFlags args).positionals = [] ∧
        (parse toolchainFlags args).settings.foldl toolchainSetting (false, standardProfile) =
          (false, path))) ∧
      ∀ {σ : Type}, (runToolchain args : Action σ Result) = pure result) ∨
    ∃ path, (parse toolchainFlags args).mistake = none ∧
      (parse toolchainFlags args).positionals = [] ∧
      (parse toolchainFlags args).settings.foldl toolchainSetting (false, standardProfile) =
        (false, path) ∧
      ∀ {σ : Type}, (runToolchain args : Action σ Result) = writeProfile path := by
  cases hsettings : (parse toolchainFlags args).settings.foldl toolchainSetting
    (false, standardProfile) with
  | mk help path =>
      cases hmistake : (parse toolchainFlags args).mistake with
      | some m => exact .inl ⟨.rejected m.message, rfl, by simp, by simp [runToolchain, hmistake]⟩
      | none =>
          cases help with
          | true =>
              exact .inl ⟨.printed toolchainHelp, rfl, by simp, by
                simp [runToolchain, hmistake, hsettings]⟩
          | false =>
              cases hnames : (parse toolchainFlags args).positionals with
              | nil =>
                  exact .inr ⟨path, rfl, rfl, rfl, by
                    simp [runToolchain, hmistake, hsettings, hnames]⟩
              | cons name others =>
                  exact .inl ⟨.rejected (text "unknown command " ++ quote name ++
                    text " for \"rcc toolchain\""), rfl, by simp, by
                      simp [runToolchain, hmistake, hsettings, hnames]⟩

section Dispatch

variable {own : List Bytes} (choose : Settings → Options → Executor σ)

theorem dispatch_help (h : command env args = .help own) :
    dispatch env choose args = pure ⟨runHelp env own, .standard env, false⟩ := by
  rw [dispatch, h]

theorem dispatch_toolchain (h : command env args = .toolchain own) :
    dispatch env choose args =
      runToolchain own >>= fun result => pure ⟨result, .standard env, false⟩ := by
  rw [dispatch, h]

theorem dispatch_compile (h : command env args = .compile own) :
    dispatch env choose args = runCompile env choose own := by
  rw [dispatch, h]

end Dispatch

/-- What the arguments ask for, for whatever tools there are. -/
theorem dispatch_cases (env : Environment) (args : List Bytes) (files : FileTree) :
    ((∀ path, ¬ AsksForProfile env args path) ∧
      ((∃ finished : Finished, finished.result.code = .usage ∧
        ∀ {σ : Type} (choose : Settings → Options → Executor σ) (state : σ),
          dispatch env choose args files state = ⟨finished, files, state, []⟩) ∨
      ∃ s o, ∀ {σ : Type} (choose : Settings → Options → Executor σ) (state : σ),
        dispatch env choose args files state =
          (compile (choose s o) s o >>= fun result => pure ⟨result, s, true⟩) files state)) ∨
    ∃ path, AsksForProfile env args path ∧
      ∀ {σ : Type} (choose : Settings → Options → Executor σ) (state : σ),
        dispatch env choose args files state =
          (writeProfile path >>= fun result => pure ⟨result, .standard env, false⟩)
            files state := by
  cases hcommand : command env args with
  | help own =>
      refine .inl ⟨?_, .inl ⟨⟨runHelp env own, .standard env, false⟩, runHelp_code env own,
        fun choose state => ?_⟩⟩
      · rintro path ⟨_, htoolchain, -⟩
        rw [hcommand] at htoolchain
        cases htoolchain
      · rw [dispatch_help choose hcommand, Action.pure_apply]
  | toolchain own =>
      rcases runToolchain_cases own with ⟨result, hcode, hnot, hrun⟩ | ⟨path, hask⟩
      · refine .inl ⟨?_, .inl ⟨⟨result, .standard env, false⟩, hcode, fun choose state => ?_⟩⟩
        · rintro path ⟨own', htoolchain, hasked⟩
          obtain rfl := Command.toolchain.inj (hcommand.symm.trans htoolchain)
          exact hnot path hasked
        · rw [dispatch_toolchain choose hcommand, hrun]
          rfl
      · obtain ⟨hmistake, hnames, hsettings, hrun⟩ := hask
        refine .inr ⟨path, ⟨own, hcommand, hmistake, hnames, hsettings⟩, fun choose state => ?_⟩
        rw [dispatch_toolchain choose hcommand, hrun]
  | compile own =>
      refine .inl ⟨?_, ?_⟩
      · rintro path ⟨_, htoolchain, -⟩
        rw [hcommand] at htoolchain
        cases htoolchain
      · rcases runCompile_cases env own files with ⟨finished, hcode, hrun⟩ | ⟨s, o, hrun⟩
        · refine .inl ⟨finished, hcode, fun choose state => ?_⟩
          rw [dispatch_compile choose hcommand, hrun]
        · refine .inr ⟨s, o, fun choose state => ?_⟩
          rw [dispatch_compile choose hcommand, hrun]

/-!
## Compiling and writing a profile
-/

/-- A compilation is given up before any tool is called, or it has a history. -/
theorem compile_recorded (executor : Executor σ) (s : Settings) (o : Options) (files : FileTree)
    (state : σ) :
    let run := compile (recorded executor) s o files (state, [])
    (run.tools.2 = [] ∧ run.files = files ∧ run.value.code = .usage) ∨
      ∃ t outcome, Pipeline.History o t run.tools.2 outcome ∧
        run.value.code = Pipeline.exitCode outcome := by
  unfold compile
  cases hresolve : Profile.resolve files s.toolchain with
  | error fault =>
      left
      simp [hresolve, Result.rejected]
  | ok t =>
      right
      have hhistory := Pipeline.compile_history o t (logged executor) files state
      rw [← logged_recorded] at hhistory
      simp only [Action.bind_tools, Action.bind_value, Action.report_apply, Action.inspect_apply,
        hresolve]
      generalize Pipeline.compile o t (logged (recorded executor)) files (state, []) = done
        at hhistory ⊢
      obtain ⟨outcome, after, tools, log⟩ := done
      refine ⟨t, outcome, ?_⟩
      cases outcome with
      | error failure => exact ⟨hhistory, rfl⟩
      | ok => exact ⟨hhistory, rfl⟩

theorem compile_inStep (executor : Executor σ) (s : Settings) (o : Options) :
    (recording σ).InStep (compile executor s o) (compile (recorded executor) s o) := by
  refine .bind (.report rfl) fun _ => ?_
  refine .bind (.inspect fun _ _ _ _ h => by rw [h.1]) fun resolved => ?_
  cases resolved with
  | error fault => exact .pure _
  | ok t =>
      refine .bind (Pipeline.inStep_compile o t (logged executor)) fun outcome => ?_
      cases outcome with
      | error failure => exact .pure _
      | ok => exact .pure _

theorem compile_goesOn {executor : Executor σ} (h : ∀ args, GoesOn (executor args)) (s : Settings)
    (o : Options) : GoesOn (compile executor s o) := by
  refine .bind (goesOn_report (by decide)) fun _ => .bind (.inspect _) fun resolved => ?_
  cases resolved with
  | error fault => exact .pure _
  | ok t =>
      refine .bind (Pipeline.compile_goesOn (logged_goesOn h) o t) fun outcome => ?_
      cases outcome with
      | error failure => exact .pure _
      | ok => exact .pure _

/-- Writing the profile is a matter of the files alone. -/
theorem writeProfile_cases (path : Bytes) (files : FileTree) :
    (∃ after result log, files.write path (Profile.encode .standard) = .ok after ∧
      result.code = .ok ∧ (∀ e ∈ log, ¬ IsFarewell e) ∧
      ∀ {σ : Type} (tools : σ), writeProfile path files tools = ⟨result, after, tools, log⟩) ∨
    ∃ fault result, files.write path (Profile.encode .standard) = .error fault ∧
      result.code = .unavailable ∧
      ∀ {σ : Type} (tools : σ), writeProfile path files tools = ⟨result, files, tools, []⟩ := by
  cases hwrite : files.write path (Profile.encode .standard) with
  | error fault =>
      refine .inr ⟨fault, ⟨.unavailable, [], some (Profile.unwritten path fault).message⟩,
        rfl, rfl, fun tools => ?_⟩
      rw [writeProfile, Action.inspect_bind, Profile.save, hwrite]
      rfl
  | ok after =>
      refine .inl ⟨after, ⟨.ok, [], none⟩,
        [Log.entry .info "toolchain profile written" [("path", .text path)]], rfl, rfl,
        List.forall_mem_singleton.2 (not_isFarewell (by decide)), fun tools => ?_⟩
      rw [writeProfile, Action.inspect_bind, Profile.save, hwrite]
      rfl

/-- The course that a run takes before its end is reported.  Keeping a record changes nothing. -/
theorem dispatch_course (env : Environment) (choose : Settings → Options → Executor σ)
    (args : List Bytes) (files : FileTree) (state : σ) :
    let run := dispatch env choose args files state
    let watched := dispatch env (fun s o => recorded (choose s o)) args files (state, [])
    (watched.value = run.value ∧ watched.files = run.files ∧ watched.tools.1 = run.tools ∧
      watched.log = run.log) ∧
    Course env args files watched.tools.2 run.files run.value.result.code := by
  intro run watched
  rcases dispatch_cases env args files with
    ⟨hunasked, ⟨finished, hcode, hrun⟩ | ⟨s, o, hrun⟩⟩ | ⟨path, hasked, hrun⟩
  · simp only [run, watched, hrun, hcode, true_and]
    exact .idle hunasked
  · obtain ⟨hvalue, ⟨hfiles, htools⟩, hlog⟩ :=
      compile_inStep (choose s o) s o files state files (state, []) ⟨rfl, rfl⟩
    replace hlog : _ = _ := hlog
    simp only [run, watched, hrun, Action.bind_value, Action.bind_files, Action.bind_tools,
      Action.bind_log, Action.pure_apply, hvalue, hfiles, htools, hlog, true_and]
    rcases compile_recorded (choose s o) s o files state with
      ⟨hcalls, hfiles, hcode⟩ | ⟨t, outcome, hhistory, hcode⟩
    · rw [hcalls, hfiles, hcode]
      exact .idle hunasked
    · rw [hcode]
      exact .compiled hunasked hhistory _
  · rcases writeProfile_cases path files with
      ⟨after, result, log, hwrite, hcode, -, hprofile⟩ | ⟨fault, result, hwrite, hcode, hprofile⟩
    · simp only [run, watched, hrun, Action.bind_value, Action.bind_files, Action.bind_tools,
        Action.bind_log, Action.pure_apply, hprofile, hcode, true_and]
      exact .written hasked hwrite
    · simp only [run, watched, hrun, Action.bind_value, Action.bind_files, Action.bind_tools,
        Action.bind_log, Action.pure_apply, hprofile, hcode, true_and]
      exact .unwritten hasked hwrite

theorem dispatch_goesOn {choose : Settings → Options → Executor σ}
    (h : ∀ s o args, GoesOn (choose s o args)) (env : Environment) (args : List Bytes) :
    GoesOn (dispatch env choose args) := by
  intro files state
  rcases dispatch_cases env args files with
    ⟨-, ⟨finished, -, hrun⟩ | ⟨s, o, hrun⟩⟩ | ⟨path, -, hrun⟩
  · simp [hrun]
  · rw [hrun]
    have hcompile : GoesOn (compile (choose s o) s o >>= fun result =>
        (pure ⟨result, s, true⟩ : Action σ Finished)) :=
      .bind (compile_goesOn (h s o) s o) fun _ => .pure _
    exact hcompile files state
  · rcases writeProfile_cases path files with
      ⟨after, result, log, -, -, hlog, hprofile⟩ | ⟨fault, result, -, -, hprofile⟩
    · simpa [hrun, hprofile] using hlog
    · simp [hrun, hprofile]

/-- The end is reported behind whatever the run has done, with its result alone. -/
theorem run_of_dispatch (env : Environment) (args : List Bytes) (files : FileTree)
    (finished : Finished) :
    ∃ front last, (∀ e ∈ front, ¬ IsFarewell e) ∧
      (last.level = .error ∧ last.message = text "Exiting with error" ∨
        last.level = .debug ∧ last.message = text "Exiting") ∧
      ∀ {σ : Type} {choose : Settings → Options → Executor σ} {state : σ},
        (dispatch env choose args files state).value = finished →
        run env choose args files state =
          ⟨finished, (dispatch env choose args files state).files,
            (dispatch env choose args files state).tools,
            (dispatch env choose args files state).log ++ (front ++ [last])⟩ := by
  obtain ⟨front, last, hfront, hlast, hreport⟩ := reportEnd_cases finished.result
    (if finished.ran then none else some (Log.entry .info "no compilation requested" []))
  refine ⟨front, last, ?_, hlast, ?_⟩
  · intro e he
    have hidle := hfront e he
    split_ifs at hidle
    · cases hidle
    · obtain rfl := Option.some.inj hidle
      exact not_isFarewell (by decide)
  · intro σ choose state hvalue
    generalize hdone : dispatch env choose args files state = done at hvalue ⊢
    obtain ⟨_, after, tools, log⟩ := done
    obtain rfl : _ = finished := hvalue
    rw [run, Action.bind_of_eq _ _ files state hdone, Action.bind_of_eq _ _ after tools
      (hreport after tools), Action.pure_apply, List.append_nil]

/-- Whatever the arguments, the environment and the files are, and whatever the tools answer, the
exit code tells what happened.  A run that is refused has called no tool and changed no file.  A
run that called tools succeeds if each of them could be run, however it ended.  A run that did
neither this nor was asked for the default profile is refused, and one that was asked for it
succeeds exactly if it has been written.  The last entry of the log, and no other, tells of the
end. -/
theorem exitCode_tells_course (env : Environment) (choose : Settings → Options → Executor σ)
    (hchoose : ∀ s o args, GoesOn (choose s o args)) (args : List Bytes) (files : FileTree)
    (state : σ) :
    let run := run env choose args files state
    let watched := Driver.run env (fun s o => recorded (choose s o)) args files (state, [])
    let calls := watched.tools.2
    let code := run.value.result.code
    (watched.value = run.value ∧ watched.files = run.files ∧ watched.tools.1 = run.tools ∧
      watched.log = run.log) ∧
    (code = .ok ∨ code = .usage ∨ code = .unavailable) ∧
    (code = .usage → calls = [] ∧ run.files = files) ∧
    (calls ≠ [] →
      ((∀ call ∈ calls, ∃ execution, call.answer = .ok execution) → code = .ok) ∧
      ((∃ call ∈ calls, ∃ fault, call.answer = .error fault) → code = .unavailable)) ∧
    (calls = [] → (∀ path, ¬ AsksForProfile env args path) → code = .usage) ∧
    (∀ path, AsksForProfile env args path →
      calls = [] ∧
      (code = .ok ↔ files.write path (Profile.encode .standard) = .ok run.files) ∧
      (code = .ok ↔ run.files.read path = .ok (Profile.encode .standard)) ∧
      (code ≠ .ok → code = .unavailable ∧ run.files = files)) ∧
    ∃ front last, run.log = front ++ [last] ∧ (∀ e ∈ front, ¬ IsFarewell e) ∧
      (last.level = .error ∧ last.message = text "Exiting with error" ∨
        last.level = .debug ∧ last.message = text "Exiting") := by
  intro run watched calls code
  obtain ⟨⟨hvalue, hfiles, htools, hlog⟩, hcourse⟩ := dispatch_course env choose args files state
  obtain ⟨front, last, hfront, hlast, hend⟩ :=
    run_of_dispatch env args files (dispatch env choose args files state).value
  have hrun : run = _ := hend rfl
  have hwatched : watched = _ := hend hvalue
  simp only [calls, code, hrun, hwatched]
  refine ⟨⟨trivial, hfiles, htools, by rw [hlog]⟩, hcourse.code_cases, ?_, hcourse.of_calls, ?_,
    fun path hasked => hcourse.of_asked hasked, _, last, (List.append_assoc _ _ _).symm, ?_, hlast⟩
  · intro hcode
    exact (hcode ▸ hcourse).of_usage
  · intro hcalls
    exact (hcalls ▸ hcourse).of_not_asked
  · exact List.forall_mem_append.2 ⟨dispatch_goesOn hchoose env args files state, hfront⟩

/-- A preprocessor that fails does not count, and a compiler that could not be run does. -/
theorem exitCode_tells_course_interrupted :
    let files := FileTree.ofList [(text "a.c", [])]
    let script : Script :=
      ⟨[⟨[], [], .ok ⟨.exited 3, [], []⟩⟩, ⟨[], [], .error .emptyCommand⟩], []⟩
    let run := run ⟨[], []⟩ (fun _ _ => scripted) [text "-s", text "a.c"] files script
    (∀ args, GoesOn (scripted args)) ∧ run.value.result.code = .unavailable ∧
    ∃ front last, run.log = front ++ [last] ∧ (∀ e ∈ front, ¬ IsFarewell e) ∧
      (last.level = .error ∧ last.message = text "Exiting with error" ∨
        last.level = .debug ∧ last.message = text "Exiting") := by
  intro files script run
  obtain ⟨-, -, -, hcalls, -, -, hlog⟩ := exitCode_tells_course ⟨[], []⟩ (fun _ _ => scripted)
    (fun _ _ => scripted_goesOn) [text "-s", text "a.c"] files script
  have hanswers : (Driver.run ⟨[], []⟩ (fun _ _ => recorded scripted) [text "-s", text "a.c"] files
      (script, [])).tools.2.map Call.answer = [.ok ⟨.exited 3, [], []⟩, .error .emptyCommand] := by
    decide +kernel
  refine ⟨scripted_goesOn, (hcalls ?_).2 ?_, hlog⟩
  · intro hnone
    rw [hnone] at hanswers
    cases hanswers
  · have hfault : Except.error RunFault.emptyCommand ∈ List.map Call.answer _ :=
      hanswers ▸ List.mem_cons_of_mem _ (List.mem_singleton_self _)
    obtain ⟨call, hmem, hanswer⟩ := List.mem_map.1 hfault
    exact ⟨call, hmem, _, hanswer⟩

end Driver
end CrossCompiler
