import CrossCompiler.CommandLine.Help
import CrossCompiler.ExitCode
import CrossCompiler.FrontEnd

/-!
# The front end's command line

The front end reads one preprocessed source.  It has no subcommands.
-/

namespace CrossCompiler
namespace FrontEnd

open CommandLine

/-- The flags of the front end. -/
inductive FlagId where
  | architecture
  | codegen
  | help
  | lex
  | output
  | parse
  | version
  deriving DecidableEq

/-- The flags of the front end, in alphabetical order. -/
def flags : List (CommandLine.Flag FlagId) :=
  [⟨.architecture, "architecture", some 'a', .platform,
      "Target architecture (Transputer, EPOC16, X86_64)"⟩,
    ⟨.codegen, "codegen", some 'c', .switch,
      "Run the lexer, parser, and assembly generation, but stop before code generation"⟩,
    ⟨.help, "help", some 'h', .switch, "help for rcc1"⟩,
    ⟨.lex, "lex", some 'l', .switch, "Run the lexer but stop before parsing"⟩,
    ⟨.output, "output", some 'o', .text [],
      "The path (absolute or relative) of the output assembler file (.asm)"⟩,
    ⟨.parse, "parse", some 'p', .switch,
      "Run the lexer and parser, but stop before assembly generation"⟩,
    ⟨.version, "version", some 'v', .switch, "version for rcc1"⟩]

/-- What the flags have been set to. -/
structure Settings where
  lex : Bool := false
  parse : Bool := false
  codegen : Bool := false
  platform : Platform := .default
  output : Bytes := []
  help : Bool := false
  version : Bool := false

namespace Settings

/-- The settings with one flag set. -/
def set (s : Settings) : FlagId × Setting → Settings
  | (.architecture, .platform p) => { s with platform := p }
  | (.codegen, .switch on) => { s with codegen := on }
  | (.help, .switch on) => { s with help := on }
  | (.lex, .switch on) => { s with lex := on }
  | (.output, .text value) => { s with output := value }
  | (.parse, .switch on) => { s with parse := on }
  | (.version, .switch on) => { s with version := on }
  | _ => s

/-- The settings after all arguments. -/
def ofParsed (p : Parsed FlagId) : Settings := p.settings.foldl set {}

end Settings

/-- Why there is nothing to read. -/
inductive Objection where
  | noFile
  | manyFiles (count : Nat)
  | notPreprocessed (path : Bytes)
  | notFound (path : Bytes)
  | notAssembly (path : Bytes)
  deriving DecidableEq

def Objection.message : Objection → Bytes
  | .noFile => text "preprocessed C filename (.i) not supplied"
  | .manyFiles count =>
    text "only one preprocessed C filename (.i) may be given, got " ++ Bytes.digits count
  | .notPreprocessed path =>
    text "'" ++ inset path ++ text "' is not a preprocessed C filename (.i)"
  | .notFound path => text "'" ++ inset path ++ text "' could not be found"
  | .notAssembly path => text "'" ++ inset path ++ text "' is not an assembler file (.asm)"

/-- What to read, from the settings and the positional arguments. -/
def validate (files : FileTree) (s : Settings) : List Bytes → Except Objection Options
  | [] => .error .noFile
  | [input] =>
    if !Case.hasSuffix ".i" input then .error (.notPreprocessed input)
    else
      match files.stat input with
      | .error _ => .error (.notFound input)
      | .ok _ =>
        if s.output ≠ [] ∧ !Case.hasSuffix ".asm" s.output then .error (.notAssembly s.output)
        else .ok ⟨input, s.output, s.lex, s.parse, s.codegen, s.platform⟩
  | inputs => .error (.manyFiles inputs.length)

/-- The options as they are logged. -/
def optionsRecord (o : Options) : List (String × Log.Scalar) :=
  [("Input", .text o.input), ("Output", .text o.output), ("Lex", .flag o.lex),
    ("Parse", .flag o.parse), ("Codegen", .flag o.codegen),
    ("TargetPlatform", .number o.platform.number)]

/-- The help of the front end. -/
def rootHelp : Bytes :=
  CommandLine.help
    ⟨"Transputer & EPOC16 C Compiler (Back End)", ["rcc1 [flags] <file.i>"], [], none⟩ flags

/-- What a run of the front end leaves besides its log. -/
structure Finished where
  result : Result
  settings : Settings

variable {σ : Type}

/-- Reads a validated source. -/
def process (o : Options) : Action σ Result := do
  .report (Log.entry .debug "compiler options" [("options", .record (optionsRecord o))])
  match ← run o with
  | .ok code => return ⟨code, [], none⟩
  | .error unreadable => return ⟨.unavailable, [], some unreadable.message⟩

/-- Does what the arguments ask for. -/
def dispatch (args : List Bytes) : Action σ Finished := do
  let parsed := CommandLine.parse flags args
  let s := Settings.ofParsed parsed
  match parsed.mistake with
  | some m => return ⟨.rejected m.message, s⟩
  | none =>
    if s.help then return ⟨.printed rootHelp, s⟩
    else if s.version then
      return ⟨.printed (text "rcc1 version " ++ text CommandLine.version ++ text "\n"), s⟩
    else
      match ← .inspect fun files => validate files s parsed.positionals with
      | .error objection => return ⟨.rejected objection.message, s⟩
      | .ok o =>
        let result ← process o
        return ⟨result, s⟩

/-- Runs the front end's command line. -/
def runCommand (args : List Bytes) : Action σ Finished := do
  let finished ← dispatch args
  reportEnd finished.result none
  return finished

end FrontEnd
end CrossCompiler
