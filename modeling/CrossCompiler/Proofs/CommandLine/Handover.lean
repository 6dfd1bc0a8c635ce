import CrossCompiler.Proofs.Artifact
import CrossCompiler.Proofs.Case
import CrossCompiler.Proofs.CommandLine.Flag
import CrossCompiler.Proofs.CommandLine.FrontEnd
import CrossCompiler.Proofs.Compilation.Calls
import CrossCompiler.Proofs.Lexer.Scan
import CrossCompiler.Proofs.Utf8

/-!
# From the driver to the front end

The driver writes its options down as arguments, and the front end reads arguments into options
of its own.  What is read is what was written, as long as the source's name does not begin
with a dash.  If it does, the name of the preprocessed source is taken for flags; no file is
named then, and the front end ends before it looks for one.
-/

namespace CrossCompiler

theorem FileTree.stat_of_read {files : FileTree} {path content : Bytes}
    (h : files.read path = .ok content) : files.stat path = .ok (.file content) := by
  obtain ⟨place, hfind⟩ := find_of_read h
  rw [stat, hfind]

namespace FrontEnd

open CommandLine
open Compilation (arguments stageArguments)

variable {σ : Type}

/-!
## The arguments as they are read
-/

/-- A switch that may have been turned on. -/
def switchSetting (id : FlagId) (on : Bool) : List (FlagId × Setting) :=
  if on then [(id, .switch true)] else []

/-- The platform, unless it is the one that is taken anyway. -/
def platformSetting (p : Platform) : List (FlagId × Setting) :=
  if p.isDefault then [] else [(.architecture, .platform p)]

/-- What the driver's arguments in front of the files set. -/
def stageSettings (o : Compilation.Options) : List (FlagId × Setting) :=
  switchSetting .lex o.lex ++ switchSetting .parse o.parse ++ switchSetting .codegen o.codegen ++
    platformSetting o.platform

/-- A switch that is written only if it is on. -/
theorem parse_switch (argument : Bytes) (id : FlagId) (hflag : isPositional argument = false)
    (hdashes : argument ≠ text "--") {flag : Flag FlagId}
    (hread : readArgument flags argument = ⟨[(flag, switchedOn)], .complete⟩)
    (hset : setAll [(flag, switchedOn)] = ([(id, .switch true)], none)) (on : Bool)
    (rest : List Bytes) :
    parse flags ((if on then [argument] else []) ++ rest) =
      (parse flags rest).setting (switchSetting id on) := by
  cases on with
  | true => exact parse_complete flags hflag hdashes hread hset rest
  | false => rfl

/-- The name of a platform is read as the platform. -/
theorem parse_architecture {p : Platform} (h : p ∈ Platform.all) (rest : List Bytes) :
    parse flags ((if p.isDefault then [] else [text "--architecture", p.name]) ++ rest) =
      (parse flags rest).setting (platformSetting p) := by
  unfold platformSetting
  split
  · rfl
  · refine parse_takesNext flags rfl (by decide) rfl ?_ rest
    simp only [Platform.all, List.mem_cons, List.not_mem_nil, or_false] at h
    rcases h with rfl | rfl | rfl <;> rfl

theorem parse_output (value : Bytes) :
    parse flags [text "-o", value] = ⟨[(.output, .text value)], [], none⟩ := by
  rw [parse_takesNext flags rfl (by decide) rfl rfl, parse_nil]
  rfl

/-- The stages and the platform are read back, and reading goes on behind them. -/
theorem parse_stageArguments {o : Compilation.Options} (hplatform : o.platform ∈ Platform.all)
    (rest : List Bytes) :
    parse flags (stageArguments o ++ rest) = (parse flags rest).setting (stageSettings o) := by
  have hlex := parse_switch (text "--lex") .lex rfl (by decide) rfl rfl o.lex
  have hparse := parse_switch (text "--parse") .parse rfl (by decide) rfl rfl o.parse
  have hcodegen := parse_switch (text "--codegen") .codegen rfl (by decide) rfl rfl o.codegen
  rw [stageArguments, List.append_assoc, List.append_assoc, List.append_assoc, hlex, hparse,
    hcodegen, parse_architecture hplatform, Parsed.setting_setting, Parsed.setting_setting,
    Parsed.setting_setting, stageSettings]

theorem foldl_platformSetting {s : Settings} (h : s.platform = .default) (p : Platform) :
    (platformSetting p).foldl Settings.set s = { s with platform := p } := by
  unfold platformSetting
  split
  · next hdefault =>
    obtain rfl : p = .default := by simpa [Platform.isDefault] using hdefault
    rw [← h]
    rfl
  · rfl

/-- The settings that the driver's arguments leave. -/
theorem foldl_stageSettings (o : Compilation.Options) :
    (stageSettings o).foldl Settings.set {} =
      ⟨o.lex, o.parse, o.codegen, o.platform, [], false, false⟩ := by
  rw [stageSettings, List.foldl_append, List.foldl_append, List.foldl_append]
  cases o.lex <;> cases o.parse <;> cases o.codegen <;>
    exact foldl_platformSetting rfl o.platform

/-- A path that does not begin with a dash is read as it stands. -/
theorem parse_arguments {o : Compilation.Options} (hplatform : o.platform ∈ Platform.all)
    (hfile : (o.path .preprocessed).head? ≠ some (ascii '-')) :
    parse flags (arguments o .compiler) =
      ⟨stageSettings o ++ [(FlagId.output, Setting.text (o.path .assembly))],
        [o.path .preprocessed], none⟩ := by
  have hpositional : isPositional (o.path .preprocessed) = true := by
    simp [isPositional, hfile]
  rw [arguments, parse_stageArguments hplatform, parse_positional flags hpositional, parse_output]
  rfl

/-- A path that begins with a dash is taken for flags. -/
theorem positionals_parse_arguments {o : Compilation.Options}
    (hplatform : o.platform ∈ Platform.all)
    (hdash : (o.path .preprocessed).head? = some (ascii '-')) :
    (parse flags (arguments o .compiler)).positionals = [] := by
  have hlast : (o.path .preprocessed).getLast? = some (ascii 'i') := by
    rw [Compilation.Options.path, Artifact.path_eq, List.getLast?_append]
    rfl
  have hflag : isPositional (o.path .preprocessed) = false := by
    have hne : o.path .preprocessed ≠ text "-" := by
      intro heq
      rw [heq] at hlast
      revert hlast
      decide
    simp [isPositional, hdash, hne]
  have hdashes : o.path .preprocessed ≠ text "--" := by
    intro heq
    rw [heq] at hlast
    revert hlast
    decide
  have hclosed : (readArgument flags (o.path .preprocessed)).Closed :=
    readArgument_closed flags rfl (by decide) (by decide) hlast
  have hrest : (parse flags [text "-o", o.path .assembly]).positionals = [] := by
    rw [parse_output]
  rw [arguments, parse_stageArguments hplatform]
  exact positionals_parse_closed flags hflag hdashes hclosed hrest

/-!
## The handover
-/

/-- The options of the front end that the driver has in mind. -/
def handedOver (o : Compilation.Options) : Options :=
  ⟨o.path .preprocessed, o.path .assembly, o.lex, o.parse, o.codegen, o.platform⟩

/-- An artifact's path has the ending of the artifact. -/
theorem hasSuffix_path (o : Compilation.Options) {artifact : Artifact} {cs : List Char}
    {ending : String} (hsuffix : artifact.suffix = Utf8.encode cs)
    (hlower : cs.map Case.lower = ending.toList) :
    Case.hasSuffix ending (o.path artifact) = true := by
  rw [Compilation.Options.path, Artifact.path_eq, hsuffix]
  exact Case.hasSuffix_append_encode _ hlower

/-- Both names pass the front end's own checks, so the arguments are accepted. -/
theorem accepts_arguments {o : Compilation.Options} (hplatform : o.platform ∈ Platform.all)
    (hfile : (o.path .preprocessed).head? ≠ some (ascii '-')) {files : FileTree} {content : Bytes}
    (hread : files.read (o.path .preprocessed) = .ok content) :
    Accepts files (arguments o .compiler) (handedOver o) := by
  have hinput : Case.hasSuffix ".i" (o.path .preprocessed) = true :=
    hasSuffix_path o (show _ = Utf8.encode ['.', 'i'] from rfl) (by decide)
  have houtput : Case.hasSuffix ".asm" (o.path .assembly) = true :=
    hasSuffix_path o (show _ = Utf8.encode ['.', 'a', 's', 'm'] from rfl) (by decide)
  have hsettings : Settings.ofParsed (parse flags (arguments o .compiler)) =
      ⟨o.lex, o.parse, o.codegen, o.platform, o.path .assembly, false, false⟩ := by
    rw [parse_arguments hplatform hfile, Settings.ofParsed, List.foldl_append,
      foldl_stageSettings]
    rfl
  refine ⟨?_, ?_, ?_, ?_⟩
  · rw [parse_arguments hplatform hfile]
  · rw [hsettings]
  · rw [hsettings]
  · rw [hsettings, parse_arguments hplatform hfile]
    simp [validate, hinput, houtput, FileTree.stat_of_read hread, handedOver]

/-- Whatever command the driver puts in front, the front end reads the arguments behind it as
the driver's own options, and its exit code tells only whether a lexical analysis that was asked
for went wrong.  A source whose name begins with a dash ends it before it reads any file. -/
theorem commandLine_read_back (o : Compilation.Options) (t : Toolchain)
    (hsource : IsSourceName o.source) (hplatform : o.platform ∈ Platform.all) :
    ∃ args, Compilation.commandLine o t .compiler = t.effective .compiler ++ args ∧
      (o.source.head? ≠ some (ascii '-') → ∀ files content (state : σ),
        files.read (o.path .preprocessed) = .ok content →
          Accepts files args (handedOver o) ∧
          ((runCommand args files state).value.result.code = .dataError ↔
            o.lex = true ∧ ∃ errors, Lexer.tokenize content = .error errors) ∧
          ((runCommand args files state).value.result.code = .dataError ∨
            (runCommand args files state).value.result.code = .ok)) ∧
      (o.source.head? = some (ascii '-') →
        ∃ finished log, finished.result.code = .usage ∧
          ∀ files (state : σ), runCommand args files state = ⟨finished, files, state, log⟩) := by
  have hhead : (o.path .preprocessed).head? = o.source.head? :=
    Artifact.head?_path hsource.endsInElement .preprocessed
  refine ⟨arguments o .compiler, ?_, ?_, ?_⟩
  · rw [Compilation.commandLine, Toolchain.command_withDefaults]
  · intro hfile files content state hread
    have haccepts : Accepts files (arguments o .compiler) (handedOver o) :=
      accepts_arguments hplatform (hhead ▸ hfile) hread
    refine ⟨haccepts, ?_⟩
    rw [result_of_accepts haccepts]
    exact code_process (o := handedOver o) hread state
  · intro hdash
    exact runCommand_of_no_file (positionals_parse_arguments hplatform (hhead.trans hdash))

/-- A stray byte in the file of a source outside the working directory whose name holds dashes,
and a source whose name reads as the flags `-v` and `-o`. -/
theorem commandLine_read_back_dashes :
    let o : Compilation.Options := ⟨text "/x-1/-a.C", true, false, true, false, false, .epoc16⟩
    let dashed : Compilation.Options := { o with source := text "-vo.c" }
    let files := FileTree.ofList [(text "/x-1/-a.i", [0xFF])] [text "home"]
    (∃ args, Compilation.commandLine o {} .compiler = text "rcc1" :: args ∧
        Accepts files args (handedOver o) ∧
        (runCommand args files ()).value.result.code = .dataError) ∧
      ∃ args, Compilation.commandLine dashed {} .compiler = text "rcc1" :: args ∧
        (runCommand args files ()).value.result.code = .usage := by
  intro o dashed files
  have hplatform : o.platform ∈ Platform.all := by decide
  have hread : files.read (o.path .preprocessed) = .ok [0xFF] := by decide
  have hfaulty : Lexer.tokenize [0xFF] = .error [⟨⟨0, 1, 1⟩, [0xFF], .invalidUtf8⟩] := by
    have hnext : Lexer.next? (.ofBytes [0xFF]) =
        some (.error ⟨⟨0, 1, 1⟩, [0xFF], .invalidUtf8⟩, ⟨⟨1, 1, 2⟩, []⟩) := rfl
    rw [Lexer.tokenize, Lexer.items_of_some hnext, Lexer.items_of_none rfl]
    rfl
  refine ⟨?_, ?_⟩
  · obtain ⟨args, hargs, haccepted, -⟩ :=
      commandLine_read_back (σ := Unit) o {} (.inr ⟨text "/x-1/-a", rfl⟩) hplatform
    obtain ⟨haccepts, hcode, -⟩ := haccepted (by decide) files [0xFF] () hread
    exact ⟨args, hargs, haccepts, hcode.2 ⟨rfl, _, hfaulty⟩⟩
  · obtain ⟨args, hargs, -, hrejected⟩ :=
      commandLine_read_back (σ := Unit) dashed {} (.inl ⟨text "-vo", rfl⟩) hplatform
    obtain ⟨finished, log, hcode, hrun⟩ := hrejected rfl
    refine ⟨args, hargs, ?_⟩
    rw [hrun]
    exact hcode

end FrontEnd
end CrossCompiler
