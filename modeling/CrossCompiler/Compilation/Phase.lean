import CrossCompiler.Artifact
import CrossCompiler.Platform
import CrossCompiler.Tool.Executor
import CrossCompiler.Toolchain.Basic

/-!
# The phases of a compilation

Each phase runs one tool on the artifact of the phase before it.  The artifacts in between
are temporary: once the tool that reads one has been run, whatever came of it, the artifact
is removed, unless the user wants to keep it.
-/

namespace CrossCompiler
namespace Compilation

/-- What is compiled, and how. -/
structure Options where
  source : Bytes
  /-- The compiler is to stop behind lexical analysis. -/
  lex : Bool
  /-- The compiler is to stop behind parsing. -/
  parse : Bool
  /-- The compiler is to stop behind the generation of assembly. -/
  codegen : Bool
  /-- Temporary artifacts are kept. -/
  saveTemps : Bool
  /-- Nothing is assembled. -/
  stopAfterCompile : Bool
  platform : Platform
  deriving DecidableEq

namespace Options

/-- The path of an artifact of the source. -/
def path (o : Options) (artifact : Artifact) : Bytes := Artifact.path o.source artifact

end Options

/-- What the compiler is told besides the files: the stages it is to stop behind, and the
platform unless it is the default one. -/
def stageArguments (o : Options) : List Bytes :=
  (if o.lex then [text "--lex"] else []) ++
    (if o.parse then [text "--parse"] else []) ++
    (if o.codegen then [text "--codegen"] else []) ++
    if o.platform.isDefault then [] else [text "--architecture", o.platform.name]

/-- The arguments of a tool behind its command. -/
def arguments (o : Options) : Tool → List Bytes
  | .preprocessor => [o.source, text "-o", o.path .preprocessed]
  | .compiler => stageArguments o ++ [o.path .preprocessed, text "-o", o.path .assembly]
  | .assembler =>
    [o.path .assembly, text "-o", o.path .binary, text "-l", o.path .listing]

/-- The command line of a tool. -/
def commandLine (o : Options) (t : Toolchain) (tool : Tool) : List Bytes :=
  t.withDefaults.command tool ++ arguments o tool

variable {σ : Type}

/-- Removes a temporary artifact, unless it is to be kept. -/
def discardTemp (o : Options) (path : Bytes) : Action σ Unit := do
  if o.saveTemps then
    .report (Log.entry .debug "retaining temporary file" [("path", .text path)])
  else
    let removed ← .inspect fun files => files.remove path
    match removed with
    | .error fault =>
      .report (Log.entry .warn "failed to delete temporary file"
        [("path", .text path), ("error", .text fault.message)])
    | .ok files =>
      .replaceFiles files
      .report (Log.entry .debug "deleted temporary file" [("path", .text path)])

/-- Reports that the compiler will find nothing to read. -/
def checkPreprocessed (path : Bytes) : Action σ Unit := do
  let found ← .inspect fun files => files.stat path
  match found with
  | .ok _ => pure ()
  | .error fault =>
    .report (Log.entry .warn "preprocessed file is missing"
      [("path", .text path), ("error", .text fault.message)])

/-- Runs the tool of a phase. -/
def runPhase (o : Options) (t : Toolchain) (executor : Executor σ) (tool : Tool) :
    Action σ Answer :=
  match tool with
  | .preprocessor => executor (commandLine o t .preprocessor)
  | .compiler => do
    checkPreprocessed (o.path .preprocessed)
    let answer ← executor (commandLine o t .compiler)
    discardTemp o (o.path .preprocessed)
    return answer
  | .assembler => do
    let answer ← executor (commandLine o t .assembler)
    discardTemp o (o.path .assembly)
    return answer

end Compilation
end CrossCompiler
