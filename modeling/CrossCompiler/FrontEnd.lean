import CrossCompiler.Action
import CrossCompiler.ExitCode
import CrossCompiler.Lexer
import CrossCompiler.Platform

/-!
# The front end

Reads a preprocessed source and, if asked to, analyses it lexically.  Faulty input is
reported in the log and by the exit code; only a source that cannot be read is a failure.
Nothing is written: there is neither a parser nor a code generator yet.
-/

namespace CrossCompiler
namespace FrontEnd

/-- What is read, and how far the front end goes. -/
structure Options where
  input : Bytes
  output : Bytes
  lex : Bool
  parse : Bool
  codegen : Bool
  platform : Platform
  deriving DecidableEq

/-- The source could not be read. -/
structure Unreadable where
  input : Bytes
  cause : FileTree.Fault
  deriving DecidableEq

def Unreadable.message (u : Unreadable) : Bytes :=
  text "failed to read " ++ inset u.input ++ text ": " ++ u.cause.message

/-- The entries about a lexical analysis. -/
def lexicalEntries (input : Bytes) :
    Except (List Lexer.Error) (List Token) → List Log.Entry
  | .ok tokens =>
    [Log.entry .info "lexical analysis successful" [("tokens", .number tokens.length)]]
  | .error errors =>
    Log.entry .error "lexical analysis unsuccessful" [("errors", .number errors.length)] ::
      errors.map fun e =>
        ⟨.error, e.problem.message,
          [(text "file", .text input), (text "pos", .text e.pos.render),
            (text "text", .text e.text)]⟩

variable {σ : Type}

/-- Analyses a source lexically. -/
def analyse (o : Options) (source : Bytes) : Action σ ExitCode := do
  let found := Lexer.tokenize source
  .report (Log.entry .debug "lexical analysis finished" [("took", .elapsed)])
  .reportAll (lexicalEntries o.input found)
  match found with
  | .ok _ => return .ok
  | .error _ => return .dataError

/-- Runs the front end. -/
def run (o : Options) : Action σ (Except Unreadable ExitCode) := do
  .report (Log.entry .debug "loading" [("path", .text o.input)])
  let content ← .inspect fun files => files.read o.input
  match content with
  | .error fault => return .error ⟨o.input, fault⟩
  | .ok source =>
    .report (Log.entry .debug "read" [("bytes", .number source.length)])
    if o.lex then
      let code ← analyse o source
      return .ok code
    else
      .report (Log.entry .warn "parsing and code generation are not implemented yet"
        [("architecture", .text o.platform.name), ("output", .text o.output)])
      return .ok .ok

/-- The exit code of a run. -/
def exitCode : Except Unreadable ExitCode → ExitCode
  | .ok code => code
  | .error _ => .unavailable

end FrontEnd
end CrossCompiler
