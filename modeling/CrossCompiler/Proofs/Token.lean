import CrossCompiler.Proofs.Lexer.Tokenize
import CrossCompiler.Proofs.Quoted

/-!
# What is shown of a token tells which token it is

A token is shown as the label of its kind and, for most kinds, an argument in brackets: the
spelling of a word between quotes, the value of a constant, the number of a kind that has no name.
No label holds a bracket, so label and argument can be told apart; and of both it can be told what
they were made from.  The place of a token is not shown.
-/

namespace CrossCompiler

/-!
## Numbers
-/

namespace Bytes

open Lexer (IsNumeral DigitByte numeralValue)

theorem toNat_digit {n : Nat} (h : n < 10) : (UInt8.ofNat (48 + n)).toNat = 48 + n := by
  rw [UInt8.toNat_ofNat']
  omega

theorem digitByte_digit {n : Nat} (h : n < 10) : DigitByte (UInt8.ofNat (48 + n)) := by
  rw [Lexer.digitByte_iff, toNat_digit h]
  omega

theorem isNumeral_digits (n : Nat) : IsNumeral (digits n) := by
  fun_induction digits n with
  | case1 n h => exact ⟨by simp, by simpa using digitByte_digit h⟩
  | case2 n h ih =>
      refine ⟨by simp, fun b hb => ?_⟩
      rcases List.mem_append.1 hb with hfront | hlast
      · exact ih.2 b hfront
      · rw [List.mem_singleton.1 hlast]
        exact digitByte_digit (Nat.mod_lt n (by decide))

theorem numeralValue_append (s : Bytes) {n : Nat} (h : n < 10) :
    numeralValue (s ++ [UInt8.ofNat (48 + n)]) = n + 10 * numeralValue s := by
  have hzero : (ascii '0').toNat = 48 := rfl
  rw [numeralValue, List.reverse_append, List.reverse_singleton, List.singleton_append,
    List.map_cons, Nat.ofDigits_cons, toNat_digit h, hzero, Nat.add_sub_cancel_left, numeralValue]
  rfl

/-- A number is the value of its digits. -/
theorem numeralValue_digits (n : Nat) : numeralValue (digits n) = n := by
  fun_induction digits n with
  | case1 n h => exact numeralValue_append [] h
  | case2 n h ih =>
      rw [numeralValue_append _ (Nat.mod_lt n (by decide)), ih]
      omega

theorem digits_injective : Function.Injective digits :=
  Function.LeftInverse.injective numeralValue_digits

/-- Only a negative number has a sign, and it is no digit. -/
theorem digits_ne_minus (m : Nat) (s : Bytes) : digits m ≠ ascii '-' :: s := by
  intro h
  have hminus : DigitByte (ascii '-') := (isNumeral_digits m).2 _ (h ▸ List.mem_cons_self)
  exact absurd (Lexer.digitByte_iff.1 hminus) (by decide)

theorem decimal_injective : Function.Injective decimal := by
  intro m n h
  cases m with
  | ofNat m =>
      cases n with
      | ofNat n => rw [digits_injective h]
      | negSucc n => exact absurd h (digits_ne_minus m _)
  | negSucc m =>
      cases n with
      | ofNat n => exact absurd h.symm (digits_ne_minus n _)
      | negSucc n =>
          have hsucc : m + 1 = n + 1 := digits_injective (List.cons.inj h).2
          rw [Nat.succ.inj hsucc]

end Bytes

/-!
## Labels
-/

namespace Kind

/-- How a token of a kind begins to be shown. -/
def label : Kind → Bytes
  | .unnamed _ => text "Kind"
  | kind => kind.name

/-- The kinds, with one of those that have no name. -/
def samples : List Kind :=
  [.lparen, .rparen, .lbrace, .rbrace, .semicolon, .keyword, .identifier, .constant, .unnamed 0]

theorem label_injOn_samples :
    ∀ k ∈ samples, ∀ l ∈ samples, k.label = l.label → k = l := by
  decide

theorem bracket_not_mem_label_samples : ∀ k ∈ samples, ascii '(' ∉ k.label := by
  decide

theorem exists_sample (k : Kind) : ∃ sample ∈ samples, k.label = sample.label ∧
    (k = sample ∨ ∃ code, k = .unnamed code ∧ sample = .unnamed 0) := by
  cases k with
  | unnamed code => exact ⟨.unnamed 0, by decide, rfl, .inr ⟨code, rfl, rfl⟩⟩
  | _ => exact ⟨_, by decide, rfl, .inl rfl⟩

theorem bracket_not_mem_label (k : Kind) : ascii '(' ∉ k.label := by
  obtain ⟨sample, hsample, hlabel, -⟩ := exists_sample k
  rw [hlabel]
  exact bracket_not_mem_label_samples sample hsample

/-- A label tells the kind, up to the number of a kind without a name. -/
theorem eq_or_unnamed_of_label_eq {k l : Kind} (h : k.label = l.label) :
    k = l ∨ ∃ m n, k = .unnamed m ∧ l = .unnamed n := by
  obtain ⟨s, hs, hk, hks⟩ := exists_sample k
  obtain ⟨t, ht, hl, hlt⟩ := exists_sample l
  obtain rfl : s = t := label_injOn_samples s hs t ht (by rw [← hk, ← hl, h])
  rcases hks with rfl | ⟨m, rfl, rfl⟩
  · rcases hlt with rfl | ⟨n, rfl, rfl⟩
    · exact .inl rfl
    · exact .inr ⟨0, n, rfl, rfl⟩
  · rcases hlt with rfl | ⟨n, rfl, -⟩
    · exact .inr ⟨m, 0, rfl, rfl⟩
    · exact .inr ⟨m, n, rfl, rfl⟩

end Kind

/-!
## Tokens
-/

namespace Token

/-- What is shown in brackets behind a label. -/
def argument? (t : Token) : Option Bytes :=
  match t.kind with
  | .keyword | .identifier => some (quote t.text)
  | .constant => some (Bytes.digits t.value.toNat)
  | .unnamed code => some (Bytes.decimal code)
  | _ => none

/-- An argument in brackets, if there is one. -/
def bracketed : Option Bytes → Bytes
  | none => []
  | some argument => ascii '(' :: (argument ++ [ascii ')'])

theorem render_eq (t : Token) : t.render = t.kind.label ++ bracketed t.argument? := by
  have hopen : CrossCompiler.text "(" = [ascii '('] := rfl
  have hclose : CrossCompiler.text ")" = [ascii ')'] := rfl
  have hunnamed : CrossCompiler.text "Kind(" = CrossCompiler.text "Kind" ++ [ascii '('] := rfl
  unfold render argument?
  cases t.kind <;> simp [Kind.label, Kind.name, bracketed, hopen, hclose, hunnamed]

theorem bracketed_injective : Function.Injective bracketed := by
  intro a b h
  cases a with
  | none =>
      cases b with
      | none => rfl
      | some b => cases h
  | some a =>
      cases b with
      | none => cases h
      | some b => rw [List.append_cancel_right (List.cons.inj h).2]

theorem label_bracketed_inj {l l' : Bytes} (hl : ascii '(' ∉ l) (hl' : ascii '(' ∉ l')
    {a a' : Option Bytes} (h : l ++ bracketed a = l' ++ bracketed a') : l = l' ∧ a = a' := by
  have hinside : ∀ {l : Bytes}, ascii '(' ∉ l → ∀ b ∈ l, (b != ascii '(') = true := by
    intro l hl b hb
    exact bne_iff_ne.2 fun heq => hl (heq ▸ hb)
  have hends : ∀ a, ∀ b ∈ (bracketed a).head?, (b != ascii '(') = false := by
    intro a b hb
    cases a with
    | none => cases hb
    | some a =>
        obtain rfl := Option.some.inj hb
        exact bne_self_eq_false _
  -- A label is all that stands in front of the first bracket.
  have htake := congrArg (List.takeWhile (· != ascii '(')) h
  rw [takeWhile_append_eq (hinside hl) (hends a), takeWhile_append_eq (hinside hl') (hends a')]
    at htake
  subst htake
  exact ⟨rfl, bracketed_injective (List.append_cancel_left h)⟩

theorem argument?_of_word {t : Token} (h : t.kind = .keyword ∨ t.kind = .identifier) :
    t.argument? = some (quote t.text) := by
  rcases h with h | h <;> rw [argument?, h]

theorem argument?_of_constant {t : Token} (h : t.kind = .constant) :
    t.argument? = some (Bytes.digits t.value.toNat) := by
  rw [argument?, h]

theorem argument?_of_unnamed {t : Token} {code : Int} (h : t.kind = .unnamed code) :
    t.argument? = some (Bytes.decimal code) := by
  rw [argument?, h]

theorem kind_eq_of_shown {a b : Token} (hlabel : a.kind.label = b.kind.label)
    (hargument : a.argument? = b.argument?) : a.kind = b.kind := by
  rcases Kind.eq_or_unnamed_of_label_eq hlabel with heq | ⟨m, n, hm, hn⟩
  · exact heq
  · rw [argument?_of_unnamed hm, argument?_of_unnamed hn] at hargument
    rw [hm, hn, Bytes.decimal_injective (Option.some.inj hargument)]

/-- A token has a spelling only if it is a word and a value only if it is a constant. -/
structure IsProper (t : Token) : Prop where
  text_eq : ¬ (t.kind = .keyword ∨ t.kind = .identifier) → t.text = []
  value_eq : t.kind ≠ .constant → t.value = 0

section Proper

variable {a b : Token} (ha : a.IsProper) (hb : b.IsProper) (hkind : a.kind = b.kind)
  (hargument : a.argument? = b.argument?)

include ha hb hkind hargument

theorem text_eq_of_shown : a.text = b.text := by
  by_cases hword : a.kind = .keyword ∨ a.kind = .identifier
  · rw [argument?_of_word hword, argument?_of_word (hkind ▸ hword)] at hargument
    exact quote_injective (Option.some.inj hargument)
  · rw [ha.text_eq hword, hb.text_eq (hkind ▸ hword)]

theorem value_eq_of_shown : a.value = b.value := by
  by_cases hconstant : a.kind = .constant
  · rw [argument?_of_constant hconstant, argument?_of_constant (hkind ▸ hconstant)] at hargument
    exact UInt32.toNat_inj.1 (Bytes.digits_injective (Option.some.inj hargument))
  · rw [ha.value_eq hconstant, hb.value_eq (hkind ▸ hconstant)]

end Proper

/-- What is shown of two tokens is the same exactly if the tokens are, up to their places. -/
theorem render_eq_iff_same {a b : Token} (ha : a.IsProper) (hb : b.IsProper) :
    a.render = b.render ↔ a.same b = true := by
  rw [Lexer.same_iff]
  constructor
  · intro h
    rw [render_eq, render_eq] at h
    obtain ⟨hlabel, hargument⟩ := label_bracketed_inj (Kind.bracket_not_mem_label _)
      (Kind.bracket_not_mem_label _) h
    have hkind := kind_eq_of_shown hlabel hargument
    exact ⟨hkind, text_eq_of_shown ha hb hkind hargument, value_eq_of_shown ha hb hkind hargument⟩
  · rintro ⟨hkind, htext, hvalue⟩
    rw [render, render, hkind, htext, hvalue]

/-- A stray byte, the text of its escape and the replacement character, all as identifiers. -/
theorem render_eq_iff_same_lookalikes :
    let stray := identifier [0xFF]
    let spelled := identifier (CrossCompiler.text "\\xff")
    let replaced := identifier (Utf8.encode [replacement])
    (stray.IsProper ∧ spelled.IsProper ∧ replaced.IsProper) ∧
      stray.render = CrossCompiler.text "IDENTIFIER(\"\\xff\")" ∧
      stray.render ≠ spelled.render ∧ stray.render ≠ replaced.render ∧
      { stray with pos := .start }.render = stray.render := by
  intro stray spelled replaced
  have hproper : ∀ spelling, (identifier spelling).IsProper :=
    fun spelling => ⟨fun h => absurd (.inr rfl) h, fun _ => rfl⟩
  have hplaced : { stray with pos := .start }.IsProper :=
    ⟨fun h => absurd (.inr rfl) h, fun _ => rfl⟩
  refine ⟨⟨hproper _, hproper _, hproper _⟩, by decide, fun h => ?_, fun h => ?_, ?_⟩
  · exact absurd ((render_eq_iff_same (hproper _) (hproper _)).1 h) (by decide)
  · exact absurd ((render_eq_iff_same (hproper _) (hproper _)).1 h) (by decide)
  · exact (render_eq_iff_same hplaced (hproper _)).2 (by decide)

end Token
end CrossCompiler
