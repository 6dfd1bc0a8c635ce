import Mathlib
import CrossCompiler.Text.Symbol
import CrossCompiler.Toolchain.Basic

/-!
# Toolchains and their defaults

A toolchain is what it gives for each tool, and filling in the defaults changes only the
tools for which it gives no command or an empty one.  A normal toolchain leaves nothing to fill
in, and nothing to repair.
-/

namespace CrossCompiler
namespace Toolchain

@[simp]
theorem given_ofTools (given : Tool → Option (List Bytes)) (tool : Tool) :
    (ofTools given).given tool = given tool := by
  cases tool <;> rfl

theorem eq_of_given {t u : Toolchain} (h : ∀ tool, t.given tool = u.given tool) : t = u := by
  obtain ⟨preprocessor, compiler, assembler⟩ := t
  obtain rfl : preprocessor = u.preprocessor := h .preprocessor
  obtain rfl : compiler = u.compiler := h .compiler
  obtain rfl : assembler = u.assembler := h .assembler
  rfl

/-- The command that a tool is run with: the given one, unless none is given or it is
empty. -/
def effective (t : Toolchain) (tool : Tool) : List Bytes :=
  match t.given tool with
  | some (name :: arguments) => name :: arguments
  | some [] => defaultCommand tool
  | none => defaultCommand tool

theorem effective_ne_nil (t : Toolchain) (tool : Tool) : t.effective tool ≠ [] := by
  unfold effective
  split
  · exact List.cons_ne_nil _ _
  · cases tool <;> exact List.cons_ne_nil _ _
  · cases tool <;> exact List.cons_ne_nil _ _

@[simp]
theorem given_withDefaults (t : Toolchain) (tool : Tool) :
    t.withDefaults.given tool = some (t.effective tool) := by
  rw [withDefaults, given_ofTools, command, effective]
  cases t.given tool with
  | none => rfl
  | some command =>
      cases command with
      | nil => rfl
      | cons name arguments => simp

theorem command_withDefaults (t : Toolchain) (tool : Tool) :
    t.withDefaults.command tool = t.effective tool := by
  rw [command, given_withDefaults, Option.getD_some]

theorem withDefaults_eq_self {t : Toolchain} (h : ∀ tool, t.command tool ≠ []) :
    t.withDefaults = t := by
  refine eq_of_given fun tool => ?_
  rw [withDefaults, given_ofTools, if_neg (h tool)]

/-- Every tool has a command, no command is empty, and all strings are valid. -/
def IsNormal (t : Toolchain) : Prop :=
  ∀ tool, ∃ args, t.given tool = some args ∧ args ≠ [] ∧ ∀ arg ∈ args, ∃ cs, arg = Utf8.encode cs

theorem IsNormal.withDefaults_eq {t : Toolchain} (h : t.IsNormal) : t.withDefaults = t := by
  apply withDefaults_eq_self
  intro tool
  obtain ⟨args, hgiven, hne, -⟩ := h tool
  rw [command, hgiven]
  exact hne

end Toolchain
end CrossCompiler
