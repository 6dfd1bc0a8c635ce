import CrossCompiler.Proofs.Utf8
import CrossCompiler.Text.Case

/-!
# Names and endings in any case

Both rules of case agree with the lower case of ASCII but for two characters each.  So it can be
told, character by character, what is taken for a name or for an ending.  `Written` says it of a
name on bytes, without folding: each letter stands in one of its two cases, and an `s` may be the
long one.  It is not said of names that hold a `k`, which may be the Kelvin sign.
-/

namespace CrossCompiler
namespace Case

open Utf8

/-!
## Single characters
-/

/-- Characters of the same lower case are the two cases of one letter. -/
theorem eq_of_toLower_eq {c d : Char} (h : d.toLower = c.toLower) :
    d = c.toLower ∨ d = c.toUpper := by
  by_cases hd : d.isUpper
  · right
    calc d = d.toUpper := (Char.toUpper_eq_of_not_isLower (Char.not_isLower_of_isUpper hd)).symm
      _ = d.toLower.toUpper := (Char.toUpper_toLower_eq_toUpper d).symm
      _ = c.toLower.toUpper := by rw [h]
      _ = c.toUpper := Char.toUpper_toLower_eq_toUpper c
  · left
    rw [← h, Char.toLower_eq_of_not_isUpper hd]

theorem toLower_eq_ite (c : Char) :
    c.toLower = if 'A' ≤ c ∧ c ≤ 'Z' then Char.ofNat (c.toNat + 32) else c := by
  have hupper : c.isUpper = true ↔ 'A' ≤ c ∧ c ≤ 'Z' := by
    simp [Char.isUpper, Char.le_def]
  split_ifs with h
  · exact Char.toLower_eq_of_isUpper (hupper.2 h)
  · exact Char.toLower_eq_of_not_isUpper (mt hupper.1 h)

/-- A rule of case that goes beyond ASCII in two characters only. -/
theorem ite_eq_iff_toLower {c d x y t u : Char} (hd : d.toNat < 0x80) (hx : 0x80 ≤ x.toNat)
    (hy : 0x80 ≤ y.toNat) (hxy : x ≠ y) :
    (if 'A' ≤ c ∧ c ≤ 'Z' then Char.ofNat (c.toNat + 32)
      else if c = x then t else if c = y then u else c) = d ↔
      c.toLower = d ∨ (c = x ∧ t = d) ∨ (c = y ∧ u = d) := by
  have hasciix : d ≠ x := by
    rintro rfl
    omega
  have hasciiy : d ≠ y := by
    rintro rfl
    omega
  rw [toLower_eq_ite]
  by_cases hupper : 'A' ≤ c ∧ c ≤ 'Z'
  · have hc : c.toNat < 0x80 := by
      have hle : c.toNat ≤ 90 := by simpa [Char.le_def, UInt32.le_iff_toNat_le] using hupper.2
      omega
    have hcx : c ≠ x := by
      rintro rfl
      omega
    have hcy : c ≠ y := by
      rintro rfl
      omega
    simp [hupper, hcx, hcy]
  · by_cases hcx : c = x
    · subst hcx
      simp [hupper, hxy, hasciix.symm]
    · by_cases hcy : c = y
      · subst hcy
        simp [hupper, hcx, hasciiy.symm]
      · simp [hupper, hcx, hcy]

theorem lower_eq_iff {c d : Char} (hd : d.toNat < 0x80) :
    lower c = d ↔ c.toLower = d ∨ (c = '\u0130' ∧ 'i' = d) ∨ (c = '\u212a' ∧ 'k' = d) :=
  ite_eq_iff_toLower hd (by decide) (by decide) (by decide)

/-- But for two letters, what is lowered to a character is one of its two cases. -/
theorem eq_of_lower_eq {c d : Char} (hd : d.toNat < 0x80) (hi : d ≠ 'i') (hk : d ≠ 'k')
    (h : lower c = d) : c = d.toLower ∨ c = d.toUpper := by
  rw [lower_eq_iff hd] at h
  rcases h with hlower | ⟨-, hdotted⟩ | ⟨-, hkelvin⟩
  · refine eq_of_toLower_eq ?_
    rw [← hlower, Char.toLower_toLower_eq_toLower]
  · exact absurd hdotted.symm hi
  · exact absurd hkelvin.symm hk

theorem fold_eq_iff {c d : Char} (hd : d.toNat < 0x80) :
    fold c = d ↔ c.toLower = d ∨ (c = '\u017f' ∧ 's' = d) ∨ (c = '\u212a' ∧ 'k' = d) :=
  ite_eq_iff_toLower hd (by decide) (by decide) (by decide)

theorem toNat_toLower_lt {c : Char} (h : c.toNat < 0x80) : c.toLower.toNat < 0x80 := by
  rw [toLower_eq_ite]
  split_ifs with hupper
  · have hle : c.toNat ≤ 90 := by simpa [Char.le_def, UInt32.le_iff_toNat_le] using hupper.2
    rw [Char.toNat_ofNat, if_pos (Or.inl (by omega))]
    omega
  · exact h

theorem toNat_toUpper_lt {c : Char} (h : c.toNat < 0x80) : c.toUpper.toNat < 0x80 := by
  by_cases hlower : c.isLower
  · rw [Char.toUpper_eq_of_isLower hlower, Char.toNat_ofNat, if_pos (Or.inl (by omega))]
    omega
  · rwa [Char.toUpper_eq_of_not_isLower hlower]

theorem fold_ascii {c : Char} (h : c.toNat < 0x80) : fold c = c.toLower :=
  (fold_eq_iff (toNat_toLower_lt h)).2 (.inl rfl)

/-!
## Names
-/

/-- The bytes are a name of ASCII, each character in one of its cases.  An `s` may be long. -/
inductive Written : List Char → Bytes → Prop
  | nil : Written [] []
  | lower (c : Char) {name : List Char} {s : Bytes} (rest : Written name s) :
      Written (c :: name) (ascii c.toLower :: s)
  | upper (c : Char) {name : List Char} {s : Bytes} (rest : Written name s) :
      Written (c :: name) (ascii c.toUpper :: s)
  | long {c : Char} {name : List Char} {s : Bytes} (hs : c = 's' ∨ c = 'S')
      (rest : Written name s) : Written (c :: name) (String.utf8EncodeChar '\u017f' ++ s)

/-- A name is compared with another character by character, in any case. -/
theorem isName_encode (known : String) (name : List Char) :
    isName (text known) (encode name) = true ↔ name.map fold = known.toList.map fold := by
  have hfold : ∀ cs : List Char, (cs.map Symbol.char).map foldSymbol =
      (cs.map fold).map Symbol.char := by
    intro cs
    rw [List.map_map, List.map_map]
    rfl
  have hsymbols : symbols (text known) = known.toList.map Symbol.char := symbols_encode _
  have hinjective : Function.Injective (List.map Symbol.char) :=
    List.map_injective_iff.2 fun _ _ => Symbol.char.inj
  rw [isName, decide_eq_true_eq, symbols_encode, hsymbols, hfold, hfold, hinjective.eq_iff]

/-- What is taken for a name holds no stray bytes. -/
theorem exists_encode_of_isName {known : String} {s : Bytes} (h : isName (text known) s = true) :
    ∃ cs, s = encode cs := by
  have hknown : symbols (text known) = known.toList.map Symbol.char := symbols_encode _
  rw [isName, decide_eq_true_eq, hknown] at h
  have hchars : ∀ x ∈ symbols s, x.isStray = false := by
    intro x hx
    have hfolded : foldSymbol x ∈ (known.toList.map Symbol.char).map foldSymbol :=
      h ▸ List.mem_map_of_mem hx
    cases x with
    | char c => rfl
    | stray b => simp [foldSymbol] at hfolded
  obtain ⟨cs, hcs⟩ := exists_map_char hchars
  refine ⟨cs, ?_⟩
  rw [← flatMap_bytes_symbols s, hcs, flatMap_bytes_map_char]

theorem written_encode {name cs : List Char}
    (hname : ∀ c ∈ name, c.toNat < 0x80 ∧ c.toLower ≠ 'k') (h : cs.map fold = name.map fold) :
    Written name (encode cs) := by
  induction name generalizing cs with
  | nil =>
      obtain rfl : cs = [] := by simpa using h
      exact .nil
  | cons c name ih =>
      obtain ⟨⟨hascii, hk⟩, hrest⟩ := List.forall_mem_cons.1 hname
      obtain ⟨d, ds, rfl, hd, hds⟩ := List.map_eq_cons_iff.1 h
      have hwritten : Written name (encode ds) := ih hrest hds
      rw [fold_ascii hascii, fold_eq_iff (toNat_toLower_lt hascii)] at hd
      rw [encode_cons]
      rcases hd with hlower | ⟨rfl, hs⟩ | ⟨-, hkelvin⟩
      · rcases eq_of_toLower_eq hlower with rfl | rfl
        · rw [utf8EncodeChar_ascii (toNat_toLower_lt hascii)]
          exact .lower c hwritten
        · rw [utf8EncodeChar_ascii (toNat_toUpper_lt hascii)]
          exact .upper c hwritten
      · have hletter : c = 's' ∨ c = 'S' :=
          eq_of_toLower_eq (c := 's') (hs.symm.trans (by decide))
        exact .long hletter hwritten
      · exact absurd hkelvin.symm hk

theorem Written.exists_chars {name : List Char} {s : Bytes} (h : Written name s)
    (hname : ∀ c ∈ name, c.toNat < 0x80) :
    ∃ cs, s = encode cs ∧ cs.map fold = name.map fold := by
  -- Each way to write a character is a character that folds with it.
  have hcons : ∀ {c d : Char} {name : List Char} {s : Bytes}, fold d = fold c →
      (∃ cs, s = encode cs ∧ cs.map fold = name.map fold) →
      ∃ cs, String.utf8EncodeChar d ++ s = encode cs ∧ cs.map fold = (c :: name).map fold := by
    rintro c d name s hfold ⟨cs, rfl, hcs⟩
    exact ⟨d :: cs, rfl, by rw [List.map_cons, List.map_cons, hfold, hcs]⟩
  induction h with
  | nil => exact ⟨[], rfl, rfl⟩
  | lower c rest ih =>
      obtain ⟨hascii, hrest⟩ := List.forall_mem_cons.1 hname
      have hfold : fold c.toLower = fold c := by
        rw [fold_ascii (toNat_toLower_lt hascii), fold_ascii hascii]
        simp
      simpa [utf8EncodeChar_ascii (toNat_toLower_lt hascii)] using hcons hfold (ih hrest)
  | upper c rest ih =>
      obtain ⟨hascii, hrest⟩ := List.forall_mem_cons.1 hname
      have hfold : fold c.toUpper = fold c := by
        rw [fold_ascii (toNat_toUpper_lt hascii), fold_ascii hascii]
        simp
      simpa [utf8EncodeChar_ascii (toNat_toUpper_lt hascii)] using hcons hfold (ih hrest)
  | long hs rest ih =>
      obtain ⟨-, hrest⟩ := List.forall_mem_cons.1 hname
      rcases hs with rfl | rfl
      · exact hcons (by decide) (ih hrest)
      · exact hcons (by decide) (ih hrest)

/-- A byte string is taken for a name of ASCII if it is the name in any case. -/
theorem isName_iff_written {known : String}
    (hknown : ∀ c ∈ known.toList, c.toNat < 0x80 ∧ c.toLower ≠ 'k') {s : Bytes} :
    isName (text known) s = true ↔ Written known.toList s := by
  constructor
  · intro h
    obtain ⟨cs, rfl⟩ := exists_encode_of_isName h
    exact written_encode hknown ((isName_encode known cs).1 h)
  · intro h
    obtain ⟨cs, rfl, hcs⟩ := h.exists_chars fun c hc => (hknown c hc).1
    exact (isName_encode known cs).2 hcs

/-!
## Endings
-/

/-- An ending in ASCII is noticed whatever is in front of it. -/
theorem hasSuffix_append_encode (s : Bytes) {cs : List Char} {suffix : String}
    (h : cs.map lower = suffix.toList) : hasSuffix suffix (s ++ encode cs) = true := by
  rw [hasSuffix, lowered, toChars_append_encode, List.map_append, h, List.isSuffixOf_iff_suffix]
  exact List.suffix_append _ _

/-- An ending is noticed only where its characters stand in some case.  A stray byte is read as
the replacement character, so it is part of no other ending. -/
theorem hasSuffix_iff {suffix : String} (hsuffix : replacement ∉ suffix.toList) {s : Bytes} :
    hasSuffix suffix s = true ↔
      ∃ front cs, s = front ++ encode cs ∧ cs.map lower = suffix.toList := by
  constructor
  · intro h
    rw [hasSuffix, List.isSuffixOf_iff_suffix, lowered, toChars, List.map_map] at h
    obtain ⟨before, hbefore⟩ := h
    obtain ⟨front, back, hsplit, -, hback⟩ := List.map_eq_append_iff.1 hbefore.symm
    have hchars : ∀ x ∈ back, x.isStray = false := by
      intro x hx
      have hmem : (lower ∘ Symbol.toChar) x ∈ suffix.toList := hback ▸ List.mem_map_of_mem hx
      cases x with
      | char c => rfl
      | stray b => exact absurd hmem hsuffix
    obtain ⟨cs, rfl⟩ := exists_map_char hchars
    refine ⟨front.flatMap Symbol.bytes, cs, ?_, ?_⟩
    · rw [← flatMap_bytes_map_char, ← List.flatMap_append, ← hsplit, flatMap_bytes_symbols]
    · rw [← hback, List.map_map]
      rfl
  · rintro ⟨front, cs, rfl, hcs⟩
    exact hasSuffix_append_encode front hcs

/-- Of a dot and a letter in lower case, only the letter leaves a choice. -/
theorem exists_of_map_lower_eq {cs : List Char} {letter : Char}
    (h : cs.map lower = ['.', letter]) : ∃ c, cs = ['.', c] ∧ lower c = letter := by
  obtain ⟨x, y, rfl⟩ : ∃ x y, cs = [x, y] :=
    List.length_eq_two.1 (by simpa using congrArg List.length h)
  obtain ⟨hx, hy⟩ : lower x = '.' ∧ lower y = letter := by simpa using h
  obtain rfl : x = '.' := (eq_of_lower_eq (by decide) (by decide) (by decide) hx).elim id id
  exact ⟨y, rfl, hy⟩

/-- A lower-case character of ASCII that nothing but its upper case is lowered to. -/
@[mk_iff]
structure IsPlain (c : Char) : Prop where
  isAscii : c.toNat < 0x80
  isLower : c.toLower = c
  ne_i : c ≠ 'i'
  ne_k : c ≠ 'k'

/-- The byte is a character of ASCII in its lower or its upper case. -/
def InCase (c : Char) (b : UInt8) : Prop := b = ascii c ∨ b = ascii c.toUpper

namespace IsPlain

variable {c : Char} (hc : IsPlain c)

include hc

theorem lower_eq_iff {d : Char} : lower d = c ↔ d = c ∨ d = c.toUpper := by
  constructor
  · intro h
    have hcases := eq_of_lower_eq hc.isAscii hc.ne_i hc.ne_k h
    rwa [hc.isLower] at hcases
  · rintro (rfl | rfl)
    · exact (Case.lower_eq_iff hc.isAscii).2 (.inl hc.isLower)
    · refine (Case.lower_eq_iff hc.isAscii).2 (.inl ?_)
      rw [Char.toLower_toUpper_eq_toLower, hc.isLower]

theorem toNat_lt {d : Char} (h : lower d = c) : d.toNat < 0x80 := by
  rcases hc.lower_eq_iff.1 h with rfl | rfl
  · exact hc.isAscii
  · exact toNat_toUpper_lt hc.isAscii

theorem inCase_iff {b : UInt8} : InCase c b ↔ ∃ d, lower d = c ∧ b = ascii d := by
  simp only [InCase, hc.lower_eq_iff, or_and_right, exists_or, exists_eq_left]

end IsPlain

/-- Characters that are lowered to plain ones are the plain ones in any case. -/
theorem forall₂_inCase_iff {name : List Char} (hname : ∀ c ∈ name, IsPlain c) {s : Bytes} :
    List.Forall₂ InCase name s ↔ ∃ cs, s = encode cs ∧ cs.map lower = name := by
  constructor
  · intro h
    induction h with
    | nil => exact ⟨[], rfl, rfl⟩
    | cons hb _ ih =>
        obtain ⟨hc, hrest⟩ := List.forall_mem_cons.1 hname
        obtain ⟨d, hd, rfl⟩ := hc.inCase_iff.1 hb
        obtain ⟨cs, rfl, rfl⟩ := ih hrest
        refine ⟨d :: cs, ?_, by rw [List.map_cons, hd]⟩
        rw [encode_cons, utf8EncodeChar_ascii (hc.toNat_lt hd), List.singleton_append]
  · rintro ⟨cs, rfl, rfl⟩
    rw [List.forall_mem_map] at hname
    rw [encode_ascii fun d hd => (hname d hd).toNat_lt rfl, List.forall₂_map_left_iff,
      List.forall₂_map_right_iff, List.forall₂_same]
    exact fun d hd => (hname d hd).inCase_iff.2 ⟨d, rfl, rfl⟩

/-- A plain ending is noticed where each of its characters stands in one of its two cases. -/
theorem hasSuffix_iff_forall₂ {suffix : String} (hsuffix : ∀ c ∈ suffix.toList, IsPlain c)
    {s : Bytes} :
    hasSuffix suffix s = true ↔
      ∃ ending, ending <:+ s ∧ List.Forall₂ InCase suffix.toList ending := by
  have hreplacement : replacement ∉ suffix.toList := by
    intro hmem
    exact absurd (hsuffix _ hmem).isAscii (by decide)
  rw [hasSuffix_iff hreplacement]
  simp only [forall₂_inCase_iff hsuffix]
  constructor
  · rintro ⟨front, cs, rfl, hcs⟩
    exact ⟨encode cs, List.suffix_append _ _, cs, rfl, hcs⟩
  · rintro ⟨_, ⟨front, rfl⟩, cs, rfl, hcs⟩
    exact ⟨front, cs, rfl, hcs⟩

end Case
end CrossCompiler
