import CrossCompiler.Path

/-!
# Artifacts

The files made from a source.  Their names differ from the source's in the extension
only: the source's own extension is replaced, unless the last element is nothing but an
extension, as in hidden files, to which the new extension is added.
-/

namespace CrossCompiler

/-- A file made from a source. -/
inductive Artifact where
  | preprocessed
  | assembly
  | binary
  | listing
  deriving DecidableEq

namespace Artifact

def extension : Artifact → Bytes
  | .preprocessed => text "i"
  | .assembly => text "asm"
  | .binary => text "bin"
  | .listing => text "lst"

/-- The source's extension that gives way to an artifact's. -/
def replaced (source : Bytes) : Bytes :=
  let last := Path.base source
  if Path.extension last = last then [] else Path.extension last

/-- What the names of a source's artifacts have in common. -/
def stem (source : Bytes) : Bytes := Path.trimSuffix (replaced source) source

/-- The path of an artifact. -/
def path (source : Bytes) (artifact : Artifact) : Bytes :=
  stem source ++ Path.dot :: artifact.extension

end Artifact
end CrossCompiler
