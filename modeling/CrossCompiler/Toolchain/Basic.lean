import CrossCompiler.Bytes

/-!
# Toolchains

Three tools turn a source into a binary, one after the other.  A toolchain gives the
command of each, to which the arguments of a run are added.  A command that is not given,
or is given as an empty list, is the default one.
-/

namespace CrossCompiler

/-- A tool, and the phase of a compilation in which it runs. -/
inductive Tool where
  | preprocessor
  | compiler
  | assembler
  deriving DecidableEq

/-- The tools in the order in which they run. -/
def Tool.all : List Tool := [.preprocessor, .compiler, .assembler]

def Tool.name : Tool → Bytes
  | .preprocessor => text "preprocessor"
  | .compiler => text "compiler"
  | .assembler => text "assembler"

/-- The commands of the tools; nothing where no command is given. -/
structure Toolchain where
  preprocessor : Option (List Bytes) := none
  compiler : Option (List Bytes) := none
  assembler : Option (List Bytes) := none
  deriving DecidableEq

namespace Toolchain

/-- What is given for a tool. -/
def given (t : Toolchain) : Tool → Option (List Bytes)
  | .preprocessor => t.preprocessor
  | .compiler => t.compiler
  | .assembler => t.assembler

/-- The command of a tool, empty if none is given. -/
def command (t : Toolchain) (tool : Tool) : List Bytes := (t.given tool).getD []

/-- The toolchain that gives for each tool what a function says. -/
def ofTools (given : Tool → Option (List Bytes)) : Toolchain :=
  ⟨given .preprocessor, given .compiler, given .assembler⟩

/-- The command of a tool when no other is given. -/
def defaultCommand : Tool → List Bytes
  | .preprocessor => [text "gcc", text "-E", text "-P"]
  | .compiler => [text "rcc1"]
  | .assembler => [text "tmasm"]

/-- The toolchain of default commands. -/
def standard : Toolchain := ofTools fun tool => some (defaultCommand tool)

/-- The toolchain with the default command wherever a command is missing or empty. -/
def withDefaults (t : Toolchain) : Toolchain :=
  ofTools fun tool =>
    if t.command tool = [] then some (defaultCommand tool) else t.given tool

end Toolchain
end CrossCompiler
