import CrossCompiler.CommandLine.Help
import CrossCompiler.ExitCode
import CrossCompiler.Compilation.Pipeline
import CrossCompiler.Container.Running
import CrossCompiler.Tool.Host
import CrossCompiler.Toolchain.Profile

/-!
# The compiler driver's command line

The driver compiles one source.  It has two subcommands, one that writes a toolchain
profile to start from, and one that prints help.
-/

namespace CrossCompiler
namespace Driver

open CommandLine

/-- The flags of the driver. -/
inductive FlagId where
  | architecture
  | codegen
  | help
  | lex
  | parse
  | sandboxImage
  | saveTemps
  | stop
  | toolchain
  | version
  deriving DecidableEq

/-- Values the user's environment gives. -/
structure Environment where
  /-- The toolchain profile to use when none is named. -/
  toolchain : Bytes
  /-- The container image to use when none is named. -/
  sandboxImage : Bytes

/-- The flags that count in the search for a subcommand, in alphabetical order. -/
def ownFlags (env : Environment) : List (CommandLine.Flag FlagId) :=
  [⟨.architecture, "architecture", some 'a', .platform,
      "Target architecture (Transputer, EPOC16, X86_64)"⟩,
    ⟨.codegen, "codegen", some 'c', .switch,
      "Run the lexer, parser, and assembly generation, but stop before code generation"⟩,
    ⟨.lex, "lex", some 'l', .switch, "Run the lexer but stop before parsing"⟩,
    ⟨.parse, "parse", some 'p', .switch,
      "Run the lexer and parser, but stop before assembly generation"⟩,
    ⟨.sandboxImage, "sandbox-image", none, .text env.sandboxImage,
      "Run each tool inside a container of this docker image"⟩,
    ⟨.saveTemps, "save-temps", some 's', .switch,
      "Do not delete temporary preprocessor and assembly files"⟩,
    ⟨.stop, "stop", some 'S', .switch, "Stop after compilation, do not assemble"⟩,
    ⟨.toolchain, "toolchain", none, .text env.toolchain,
      "Toolchain profile (JSON) naming the preprocessor, compiler and assembler"⟩]

/-- All flags of the driver, in alphabetical order. -/
def flags (env : Environment) : List (CommandLine.Flag FlagId) :=
  (ownFlags env).take 2 ++ [⟨.help, "help", some 'h', .switch, "help for rcc"⟩] ++
    (ownFlags env).drop 2 ++ [⟨.version, "version", some 'v', .switch, "version for rcc"⟩]

/-- What the flags have been set to. -/
structure Settings where
  lex : Bool := false
  parse : Bool := false
  codegen : Bool := false
  saveTemps : Bool := false
  stop : Bool := false
  platform : Platform := .default
  toolchain : Bytes
  sandboxImage : Bytes
  help : Bool := false
  version : Bool := false

namespace Settings

/-- What the flags are when none is set. -/
def standard (env : Environment) : Settings :=
  { toolchain := env.toolchain, sandboxImage := env.sandboxImage }

/-- The settings with one flag set. -/
def set (s : Settings) : FlagId × Setting → Settings
  | (.architecture, .platform p) => { s with platform := p }
  | (.codegen, .switch on) => { s with codegen := on }
  | (.help, .switch on) => { s with help := on }
  | (.lex, .switch on) => { s with lex := on }
  | (.parse, .switch on) => { s with parse := on }
  | (.sandboxImage, .text value) => { s with sandboxImage := value }
  | (.saveTemps, .switch on) => { s with saveTemps := on }
  | (.stop, .switch on) => { s with stop := on }
  | (.toolchain, .text value) => { s with toolchain := value }
  | (.version, .switch on) => { s with version := on }
  | _ => s

/-- The settings after all arguments. -/
def ofParsed (env : Environment) (p : Parsed FlagId) : Settings :=
  p.settings.foldl set (standard env)

end Settings

/-- Why there is nothing to compile. -/
inductive Objection where
  | noFile
  | manyFiles (count : Nat)
  | notSource (path : Bytes)
  | notFound (path : Bytes)
  deriving DecidableEq

def Objection.message : Objection → Bytes
  | .noFile => text "C filename not supplied"
  | .manyFiles count => text "only one C filename may be given, got " ++ Bytes.digits count
  | .notSource path => text "'" ++ inset path ++ text "' is not a C filename"
  | .notFound path => text "'" ++ inset path ++ text "' could not be found"

/-- What to compile, from the settings and the positional arguments. -/
def validate (files : FileTree) (s : Settings) :
    List Bytes → Except Objection Compilation.Options
  | [] => .error .noFile
  | [source] =>
    if !Case.hasSuffix ".c" source then .error (.notSource source)
    else
      match files.stat source with
      | .error _ => .error (.notFound source)
      | .ok _ => .ok ⟨source, s.lex, s.parse, s.codegen, s.saveTemps, s.stop, s.platform⟩
  | sources => .error (.manyFiles sources.length)

/-- The options as they are logged. -/
def optionsRecord (o : Compilation.Options) : List (String × Log.Scalar) :=
  [("Source", .text o.source), ("Lex", .flag o.lex), ("Parse", .flag o.parse),
    ("Codegen", .flag o.codegen), ("SaveTemps", .flag o.saveTemps),
    ("StopAfterCompile", .flag o.stopAfterCompile), ("TargetPlatform", .number o.platform.number)]

/-- What the driver is for. -/
def summary : String := "Transputer & EPOC16 C Compiler"

/-- What the subcommand that writes a profile is for. -/
def toolchainSummary : String :=
  "Write the default toolchain profile, to be edited and passed with --toolchain"

/-- The help of the driver. -/
def rootHelp (env : Environment) : Bytes :=
  CommandLine.help
    ⟨summary, ["rcc [flags] <file.c>", "rcc [command]"],
      [⟨"help", "Help about any command"⟩, ⟨"toolchain", toolchainSummary⟩],
      some "Use \"rcc [command] --help\" for more information about a command."⟩
    (flags env)

/-- The flags of the subcommand that writes a profile. -/
inductive ToolchainFlag where
  | help
  | out
  deriving DecidableEq

/-- Where a profile is written when no path is given. -/
def standardProfile : Bytes := text "rcc.toolchain.json"

def toolchainFlags : List (CommandLine.Flag ToolchainFlag) :=
  [⟨.help, "help", some 'h', .switch, "help for toolchain"⟩,
    ⟨.out, "out", some 'o', .text standardProfile, "profile path"⟩]

def toolchainHelp : Bytes :=
  CommandLine.help ⟨toolchainSummary, ["rcc toolchain [flags]"], [], none⟩ toolchainFlags

/-- The one flag of the subcommand that prints help. -/
def helpFlags : List (CommandLine.Flag Unit) := [⟨(), "help", some 'h', .switch, "help for help"⟩]

def helpHelp : Bytes :=
  CommandLine.help
    ⟨"Help provides help for any command in the application.\n" ++
        "Simply type rcc help [path to command] for full details.",
      ["rcc help [command] [flags]"], [], none⟩
    helpFlags

/-- What the driver is asked to do: its own work or a subcommand's, with the arguments for
it. -/
inductive Command where
  | compile (args : List Bytes)
  | toolchain (args : List Bytes)
  | help (args : List Bytes)

/-- Finds out which command is meant. -/
def command (env : Environment) (args : List Bytes) : Command :=
  match findCommand (ownFlags env) args with
  | some (name, others) =>
    if name = text "toolchain" then .toolchain others
    else if name = text "help" then .help others
    else .compile args
  | none => .compile args

/-- Prints help about what is named, or about the driver. -/
def runHelp (env : Environment) (args : List Bytes) : Result :=
  let parsed := CommandLine.parse helpFlags args
  match parsed.mistake with
  | some m => .rejected m.message
  | none =>
    if parsed.settings.getLast?.map Prod.snd = some (.switch true) then .printed helpHelp
    else
      match command env parsed.positionals with
      | .compile _ => .printed (rootHelp env)
      | .toolchain _ => .printed toolchainHelp
      | .help _ => .printed helpHelp

variable {σ : Type}

/-- Writes the default profile. -/
def writeProfile (path : Bytes) : Action σ Result := do
  let saved ← .inspect fun files => Profile.save files path .standard
  match saved with
  | .error fault => return ⟨.unavailable, [], some fault.message⟩
  | .ok files =>
    .replaceFiles files
    .report (Log.entry .info "toolchain profile written" [("path", .text path)])
    return ⟨.ok, [], none⟩

/-- Whether help was asked for, and the path to write to. -/
def toolchainSetting : Bool × Bytes → ToolchainFlag × Setting → Bool × Bytes
  | (_, path), (.help, .switch on) => (on, path)
  | (help, _), (.out, .text path) => (help, path)
  | s, _ => s

/-- The subcommand that writes a profile. -/
def runToolchain (args : List Bytes) : Action σ Result :=
  let parsed := CommandLine.parse toolchainFlags args
  let (help, path) := parsed.settings.foldl toolchainSetting (false, standardProfile)
  match parsed.mistake with
  | some m => return .rejected m.message
  | none =>
    if help then return .printed toolchainHelp
    else
      match parsed.positionals with
      | name :: _ =>
        return .rejected (text "unknown command " ++ quote name ++ text " for \"rcc toolchain\"")
      | [] => writeProfile path

/-- Compiles a validated source. -/
def compile (executor : Executor σ) (s : Settings) (o : Compilation.Options) :
    Action σ Result := do
  .report (Log.entry .debug "driver options" [("options", .record (optionsRecord o))])
  let resolved ← .inspect fun files => Profile.resolve files s.toolchain
  match resolved with
  | .error fault => return .rejected fault.message
  | .ok toolchain =>
    match ← Pipeline.compile o toolchain (logged executor) with
    | .ok _ => return ⟨.ok, [], none⟩
    | .error failure => return ⟨.unavailable, [], some failure.message⟩

/-- What a run of the driver leaves besides files and log. -/
structure Finished where
  result : Result
  settings : Settings
  /-- A compilation was begun. -/
  ran : Bool

/-- The driver's own work.  `choose` gives the executor for what is to be compiled. -/
def runCompile (env : Environment) (choose : Settings → Compilation.Options → Executor σ)
    (args : List Bytes) : Action σ Finished := do
  let parsed := CommandLine.parse (flags env) args
  let s := Settings.ofParsed env parsed
  match parsed.mistake with
  | some m => return ⟨.rejected m.message, s, false⟩
  | none =>
    if s.help then return ⟨.printed (rootHelp env), s, false⟩
    else if s.version then
      return ⟨.printed (text "rcc version " ++ text version ++ text "\n"), s, false⟩
    else
      match ← .inspect fun files => validate files s parsed.positionals with
      | .error objection => return ⟨.rejected objection.message, s, false⟩
      | .ok o =>
        let result ← compile (choose s o) s o
        return ⟨result, s, true⟩

/-- Does what the arguments ask for. -/
def dispatch (env : Environment) (choose : Settings → Compilation.Options → Executor σ)
    (args : List Bytes) : Action σ Finished := do
  match command env args with
  | .help others => return ⟨runHelp env others, .standard env, false⟩
  | .toolchain others =>
    let result ← runToolchain others
    return ⟨result, .standard env, false⟩
  | .compile args => runCompile env choose args

/-- Runs the driver. -/
def run (env : Environment) (choose : Settings → Compilation.Options → Executor σ)
    (args : List Bytes) : Action σ Finished := do
  let finished ← dispatch env choose args
  reportEnd finished.result
    (if finished.ran then none else some (Log.entry .info "no compilation requested" []))
  return finished

/-- How the tools of a compilation are contained: they see the working directory and the
directory of the source. -/
def sandbox (workDirectory : Bytes) (user group : Int) (s : Settings) (o : Compilation.Options) :
    Container.Config :=
  ⟨s.sandboxImage, workDirectory,
    [Path.absolute workDirectory (Path.directory o.source)], user, group, .standard⟩

/-- The executor the settings ask for: containers if an image is named, and child processes
otherwise. -/
def chooseExecutor (workDirectory : Bytes) (user group : Int) (s : Settings)
    (o : Compilation.Options) : Executor Container.Daemon :=
  if s.sandboxImage = [] then Host.executor
  else Container.executor (sandbox workDirectory user group s o)

end Driver
end CrossCompiler
