import CrossCompiler.Proofs.Json.Grammar

/-!
# The value a text begins with

A byte string begins with at most one value.  White space in front of it is passed over, and a
number goes on as long as it can, so that no byte string begins with a number and with a shorter
one as well.  Any other value has an end of its own: what stands behind it has no say in it.
Which value it is does not depend on how deep a reader goes.
-/

namespace CrossCompiler
namespace Json

open Utf8

variable {content : Bytes} {v v' : Value}

/-- A text of some depth is also one of any greater depth. -/
theorem NestedText.mono {depth depth' : Nat} (hle : depth ≤ depth') {t : List Symbol} {v : Value}
    (h : NestedText depth t v) : NestedText depth' t v := by
  induction depth generalizing depth' t v with
  | zero => exact .of_scalar h
  | succ depth ih =>
      obtain ⟨depth', rfl⟩ : ∃ n, depth' = n + 1 := Nat.exists_eq_add_one_of_ne_zero (by omega)
      have hinner : depth ≤ depth' := Nat.le_of_succ_le_succ hle
      cases h with
      | scalar text => exact .scalar text
      | array elements => exact .array (elements.imp fun v _ t ht => ih hinner ht)
      | object members =>
          refine .object (members.imp fun m _ t ht => ?_)
          obtain ⟨named, before, behind, inner⟩ := ht
          exact .mk named before behind (ih hinner inner)

/-- A byte string begins, behind white space, with the text of a value, and what follows lets the
value end there. -/
def BeginsWith (content : Bytes) (v : Value) : Prop :=
  ∃ blanks written rest, content = blanks ++ (written ++ rest) ∧ Blanks (symbols blanks) ∧
    JsonText (symbols written) v ∧ EndsValue v (symbols rest)

namespace BeginsWith

/-- A reader that goes deep enough reads the value. -/
theorem exists_value (h : BeginsWith content v) : ∃ depth, ∀ deeper, depth ≤ deeper →
    ∃ rest, value deeper (skipBlanks (symbols content)) = .ok (v, rest) := by
  obtain ⟨blanks, written, rest, rfl, hblanks, ⟨depth, htext⟩, hends⟩ := h
  refine ⟨depth, fun deeper hle => ⟨symbols rest, ?_⟩⟩
  rw [skipBlanks_symbols hblanks htext]
  exact value_complete (htext.mono hle) hends

theorem unique (h : BeginsWith content v) (h' : BeginsWith content v') : v = v' := by
  obtain ⟨depth, hread⟩ := h.exists_value
  obtain ⟨depth', hread'⟩ := h'.exists_value
  -- One reader that goes deep enough for both values cannot read two of them.
  obtain ⟨rest, hv⟩ := hread (max depth depth') (Nat.le_max_left _ _)
  obtain ⟨rest', hv'⟩ := hread' (max depth depth') (Nat.le_max_right _ _)
  rw [hv] at hv'
  exact (Prod.mk.inj (Except.ok.inj hv')).1

theorem readFirst_eq (h : BeginsWith content v) (hfits : v.FitsIn depthLimit) :
    readFirst content = .ok v := by
  obtain ⟨blanks, written, rest, rfl, hblanks, htext, hends⟩ := h
  exact readFirst_complete hblanks htext hfits hends

/-- Behind a value that is no number anything may follow. -/
theorem append (h : BeginsWith content v) (hv : ∀ cs, v ≠ .number cs) (extra : Bytes) :
    BeginsWith (content ++ extra) v := by
  obtain ⟨blanks, written, rest, rfl, hblanks, htext, -⟩ := h
  refine ⟨blanks, written, rest ++ extra, ?_, hblanks, htext, fun cs hcs => absurd hcs (hv cs)⟩
  simp only [List.append_assoc]

end BeginsWith

/-- What is read and is no number is the value that the byte string begins with. -/
theorem beginsWith_of_readFirst (h : readFirst content = .ok v) (hv : ∀ cs, v ≠ .number cs) :
    BeginsWith content v := by
  obtain ⟨blanks, written, rest, hcontent, hblanks, htext⟩ := readFirst_sound h
  exact ⟨blanks, written, rest, hcontent, hblanks, htext, fun cs hcs => absurd hcs (hv cs)⟩

end Json
end CrossCompiler
