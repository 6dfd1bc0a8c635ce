import Mathlib
import CrossCompiler.Text.Symbol

/-!
# Reading back UTF-8

The symbols of a byte string are what they are said to be: a character stands exactly where
its UTF-8 bytes stand, and a stray byte exactly where no character begins.  The bytes of the
symbols are the byte string again, whether or not it is valid.  A byte string can be cut in
front of a character without a change of its symbols; a part that begins inside a character
reads differently.
-/

namespace CrossCompiler
namespace Utf8

/-- The bytes of a character by their values: one to four of them, the first telling how
many follow, each with a share of the digits to base 64. -/
inductive Octets (c : Char) : Bytes → Prop
  | one {a : UInt8} : c.toNat < 0x80 → a.toNat = c.toNat → Octets c [a]
  | two {a b : UInt8} : 0x80 ≤ c.toNat → c.toNat < 0x800 →
      a.toNat = 0xC0 + c.toNat / 64 → b.toNat = 0x80 + c.toNat % 64 → Octets c [a, b]
  | three {a b d : UInt8} : 0x800 ≤ c.toNat → c.toNat < 0x10000 →
      a.toNat = 0xE0 + c.toNat / 4096 → b.toNat = 0x80 + c.toNat / 64 % 64 →
      d.toNat = 0x80 + c.toNat % 64 → Octets c [a, b, d]
  | four {a b d e : UInt8} : 0x10000 ≤ c.toNat →
      a.toNat = 0xF0 + c.toNat / 262144 → b.toNat = 0x80 + c.toNat / 4096 % 64 →
      d.toNat = 0x80 + c.toNat / 64 % 64 → e.toNat = 0x80 + c.toNat % 64 →
      Octets c [a, b, d, e]

theorem octets_utf8EncodeChar (c : Char) : Octets c (String.utf8EncodeChar c) := by
  have hmax : c.toNat ≤ 0x10FFFF := c.toNat_le_max
  have hval : c.val.toNat = c.toNat := rfl
  unfold String.utf8EncodeChar
  simp only [hval]
  split_ifs with h1 h2 h3
  · exact .one (by omega) (by rw [UInt8.toNat_ofNat']; omega)
  · refine .two (by omega) (by omega) ?_ ?_ <;> rw [UInt8.toNat_ofNat'] <;> omega
  · refine .three (by omega) (by omega) ?_ ?_ ?_ <;> rw [UInt8.toNat_ofNat'] <;> omega
  · refine .four (by omega) ?_ ?_ ?_ ?_ <;> rw [UInt8.toNat_ofNat'] <;> omega

/-- A character has one encoding. -/
theorem Octets.unique {c : Char} {s t : Bytes} (hs : Octets c s) (ht : Octets c t) : s = t := by
  cases hs <;> cases ht <;>
    simp only [List.cons.injEq, reduceCtorEq, and_true, and_false, ← UInt8.toNat_inj] <;> omega

theorem octets_iff {c : Char} {s : Bytes} : Octets c s ↔ s = String.utf8EncodeChar c :=
  ⟨fun h => h.unique (octets_utf8EncodeChar c), fun h => h ▸ octets_utf8EncodeChar c⟩

theorem scalar?_eq_some_iff {least value : Nat} {c : Char} :
    scalar? least value = some c ↔ least ≤ value ∧ c.toNat = value := by
  constructor
  · intro h
    unfold scalar? at h
    split at h
    · next hv =>
      obtain rfl := Option.some.inj h
      exact ⟨hv.1, by rw [Char.toNat_ofNat, if_pos hv.2]⟩
    · cases h
  · rintro ⟨hle, rfl⟩
    have hvalid : c.toNat.isValidChar := c.valid
    rw [scalar?, if_pos ⟨hle, hvalid⟩, Char.ofNat_toNat]

theorem isContinuation_iff {b : UInt8} :
    isContinuation b = true ↔ 0x80 ≤ b.toNat ∧ b.toNat < 0xC0 := by
  simp [isContinuation]

theorem decode?_octets_append {c : Char} {o : Bytes} (h : Octets c o) (s : Bytes) :
    decode? (o ++ s) = some (c, s) := by
  have hmax : c.toNat ≤ 0x10FFFF := c.toNat_le_max
  cases h with
  | @one a hlt ha =>
      simp [decode?, ha, hlt]
  | @two a b hle hlt ha hb =>
      have hcont : isContinuation b = true := isContinuation_iff.2 (by omega)
      have hscalar : scalar? 0x80 (a.toNat % 32 * 64 + b.toNat % 64) = some c :=
        scalar?_eq_some_iff.2 (by omega)
      rw [List.cons_append, List.cons_append, List.nil_append, decode?, if_neg (by omega),
        if_neg (by omega), if_pos (by omega)]
      simp only [hcont, hscalar, if_true, Option.map_some]
  | @three a b d hle hlt ha hb hd =>
      have hcont : (isContinuation b && isContinuation d) = true := by
        simp only [Bool.and_eq_true, isContinuation_iff]
        omega
      have hscalar :
          scalar? 0x800 (a.toNat % 16 * 4096 + b.toNat % 64 * 64 + d.toNat % 64) = some c :=
        scalar?_eq_some_iff.2 (by omega)
      rw [List.cons_append, List.cons_append, List.cons_append, List.nil_append, decode?,
        if_neg (by omega), if_neg (by omega), if_neg (by omega), if_pos (by omega)]
      simp only [hcont, hscalar, if_true, Option.map_some]
  | @four a b d e hle ha hb hd he =>
      have hcont : (isContinuation b && isContinuation d && isContinuation e) = true := by
        simp only [Bool.and_eq_true, isContinuation_iff]
        omega
      have hscalar : scalar? 0x10000
          (a.toNat % 8 * 262144 + b.toNat % 64 * 4096 + d.toNat % 64 * 64 + e.toNat % 64) =
            some c :=
        scalar?_eq_some_iff.2 (by omega)
      rw [List.cons_append, List.cons_append, List.cons_append, List.cons_append,
        List.nil_append, decode?, if_neg (by omega), if_neg (by omega), if_neg (by omega),
        if_neg (by omega), if_pos (by omega)]
      simp only [hcont, hscalar, if_true, Option.map_some]

theorem exists_octets_of_decode? {s rest : Bytes} {c : Char} (h : decode? s = some (c, rest)) :
    ∃ o, Octets c o ∧ s = o ++ rest := by
  unfold decode? at h
  split at h
  · cases h
  next a tail =>
  -- Of the six classes of first bytes, the second and the last begin no character.
  split_ifs at h with h1 h2 h3 h4 h5
  · obtain ⟨rfl, rfl⟩ := Prod.mk.inj (Option.some.inj h)
    have hc : (Char.ofNat a.toNat).toNat = a.toNat := by
      rw [Char.toNat_ofNat, if_pos (Or.inl (by omega))]
    exact ⟨[a], .one (by omega) hc.symm, rfl⟩
  · split at h
    · next b tail =>
      split_ifs at h with hcont
      obtain ⟨d, hd, heq⟩ := Option.map_eq_some_iff.1 h
      obtain ⟨rfl, rfl⟩ := Prod.mk.inj heq
      have hv := scalar?_eq_some_iff.1 hd
      have hb := isContinuation_iff.1 hcont
      exact ⟨[a, b], .two (by omega) (by omega) (by omega) (by omega), rfl⟩
    · cases h
  · split at h
    · next b b' tail =>
      split_ifs at h with hcont
      obtain ⟨d, hd, heq⟩ := Option.map_eq_some_iff.1 h
      obtain ⟨rfl, rfl⟩ := Prod.mk.inj heq
      have hv := scalar?_eq_some_iff.1 hd
      simp only [Bool.and_eq_true, isContinuation_iff] at hcont
      exact ⟨[a, b, b'], .three (by omega) (by omega) (by omega) (by omega) (by omega), rfl⟩
    · cases h
  · split at h
    · next b b' b'' tail =>
      split_ifs at h with hcont
      obtain ⟨d, hd, heq⟩ := Option.map_eq_some_iff.1 h
      obtain ⟨rfl, rfl⟩ := Prod.mk.inj heq
      have hv := scalar?_eq_some_iff.1 hd
      simp only [Bool.and_eq_true, isContinuation_iff] at hcont
      exact ⟨[a, b, b', b''], .four (by omega) (by omega) (by omega) (by omega) (by omega), rfl⟩
    · cases h

/-- A character is read exactly where its bytes stand. -/
theorem decode?_eq_some_iff {s rest : Bytes} {c : Char} :
    decode? s = some (c, rest) ↔ s = String.utf8EncodeChar c ++ rest := by
  constructor
  · intro h
    obtain ⟨o, ho, rfl⟩ := exists_octets_of_decode? h
    rw [octets_iff.1 ho]
  · rintro rfl
    exact decode?_octets_append (octets_utf8EncodeChar c) rest

theorem decode?_eq_none_iff {s : Bytes} :
    decode? s = none ↔ ¬ ∃ c rest, s = String.utf8EncodeChar c ++ rest := by
  rw [Option.eq_none_iff_forall_ne_some]
  simp [Prod.forall, decode?_eq_some_iff]

/-- Where two characters stand at once they are the same. -/
theorem utf8EncodeChar_append_inj {c d : Char} {s t : Bytes}
    (h : String.utf8EncodeChar c ++ s = String.utf8EncodeChar d ++ t) : c = d ∧ s = t := by
  have hread := congrArg decode? h
  rw [decode?_eq_some_iff.2 rfl, decode?_eq_some_iff.2 rfl] at hread
  exact Prod.mk.inj (Option.some.inj hread)

theorem symbolsFrom_length_append (o s : Bytes) :
    symbolsFrom o.length (o ++ s) = symbols s := by
  induction o with
  | nil => rfl
  | cons b o ih => simpa only [List.length_cons, List.cons_append, symbolsFrom] using ih

@[simp]
theorem symbols_nil : symbols [] = [] := rfl

@[simp]
theorem symbols_utf8EncodeChar_append (c : Char) (s : Bytes) :
    symbols (String.utf8EncodeChar c ++ s) = .char c :: symbols s := by
  cases ho : String.utf8EncodeChar c with
  | nil => exact absurd ho String.utf8EncodeChar_ne_nil
  | cons b o =>
      have hread : decode? (b :: (o ++ s)) = some (c, s) :=
        decode?_eq_some_iff.2 (by rw [ho, List.cons_append])
      have hlength : c.utf8Size - 1 = o.length := by
        rw [← String.length_utf8EncodeChar, ho, List.length_cons, Nat.add_sub_cancel]
      rw [List.cons_append, symbols, symbolsFrom]
      simp only [hread, hlength, symbolsFrom_length_append]

theorem symbols_cons_stray {b : UInt8} {s : Bytes} (h : decode? (b :: s) = none) :
    symbols (b :: s) = .stray b :: symbols s := by
  rw [symbols, symbolsFrom]
  simp only [h, symbols]

/-- Byte strings are built from the end by putting a character in front, or a byte at which
no character begins. -/
@[elab_as_elim]
theorem symbolInduction {motive : Bytes → Prop} (nil : motive [])
    (char : ∀ c s, motive s → motive (String.utf8EncodeChar c ++ s))
    (stray : ∀ b s, decode? (b :: s) = none → motive s → motive (b :: s)) (s : Bytes) :
    motive s := by
  -- A character takes off several bytes at once, so the induction is on the length.
  induction hn : s.length using Nat.strong_induction_on generalizing s with
  | _ n ih =>
      cases s with
      | nil => exact nil
      | cons b s =>
          cases h : decode? (b :: s) with
          | none => exact stray b s h (ih s.length (by simp [← hn]) s rfl)
          | some found =>
              obtain ⟨c, rest⟩ := found
              have hsplit := decode?_eq_some_iff.1 h
              have hpos : 0 < (String.utf8EncodeChar c).length :=
                List.length_pos_iff.2 String.utf8EncodeChar_ne_nil
              have hlength := congrArg List.length hsplit
              rw [List.length_append] at hlength
              rw [hsplit]
              exact char c rest (ih rest.length (by omega) rest rfl)

/-- Writing the symbols back gives the byte string again. -/
@[simp]
theorem flatMap_bytes_symbols (s : Bytes) : (symbols s).flatMap Symbol.bytes = s := by
  induction s using symbolInduction with
  | nil => rfl
  | char c s ih =>
      rw [symbols_utf8EncodeChar_append, List.flatMap_cons, ih, Symbol.bytes]
  | stray b s h ih =>
      rw [symbols_cons_stray h, List.flatMap_cons, ih, Symbol.bytes, List.singleton_append]

theorem encode_cons (c : Char) (cs : List Char) :
    encode (c :: cs) = String.utf8EncodeChar c ++ encode cs := rfl

theorem encode_append (cs ds : List Char) : encode (cs ++ ds) = encode cs ++ encode ds :=
  List.flatMap_append

theorem flatMap_bytes_map_char (cs : List Char) :
    (cs.map Symbol.char).flatMap Symbol.bytes = encode cs := by
  rw [List.flatMap_map]
  rfl

/-- Symbols without stray bytes are characters. -/
theorem exists_map_char {s : List Symbol} (h : ∀ a ∈ s, a.isStray = false) :
    ∃ cs : List Char, s = cs.map Symbol.char := by
  have hrange : s ∈ Set.range (List.map Symbol.char) := by
    rw [Set.range_list_map]
    intro a ha
    cases a with
    | char c => exact ⟨c, rfl⟩
    | stray b => cases h _ ha
  obtain ⟨cs, rfl⟩ := hrange
  exact ⟨cs, rfl⟩

@[simp]
theorem symbols_encode_append (cs : List Char) (s : Bytes) :
    symbols (encode cs ++ s) = cs.map Symbol.char ++ symbols s := by
  induction cs with
  | nil => rfl
  | cons c cs ih =>
      rw [encode_cons, List.append_assoc, symbols_utf8EncodeChar_append, ih, List.map_cons,
        List.cons_append]

@[simp]
theorem symbols_encode (cs : List Char) : symbols (encode cs) = cs.map Symbol.char := by
  simpa using symbols_encode_append cs []

@[simp]
theorem symbols_text_append (t : String) (s : Bytes) :
    symbols (text t ++ s) = t.toList.map Symbol.char ++ symbols s :=
  symbols_encode_append t.toList s

/-- The character of a byte of ASCII. -/
def charOfByte (b : UInt8) : Char := Char.ofNat b.toNat

@[simp]
theorem toNat_charOfByte (b : UInt8) : (charOfByte b).toNat = b.toNat := by
  have hlt := b.toNat_lt
  rw [charOfByte, Char.toNat_ofNat, if_pos (Or.inl (by omega))]

theorem toNat_ascii {c : Char} (h : c.toNat < 0x80) : (ascii c).toNat = c.toNat := by
  rw [ascii, UInt8.toNat_ofNat']
  omega

/-- A character of ASCII is one byte. -/
theorem utf8EncodeChar_ascii {c : Char} (h : c.toNat < 0x80) :
    String.utf8EncodeChar c = [ascii c] :=
  (octets_iff.1 (.one h (toNat_ascii h))).symm

theorem utf8EncodeChar_charOfByte {b : UInt8} (h : b.toNat < 0x80) :
    String.utf8EncodeChar (charOfByte b) = [b] :=
  (octets_iff.1 (.one (by rwa [toNat_charOfByte]) (toNat_charOfByte b).symm)).symm

theorem symbols_cons_ascii {b : UInt8} (h : b.toNat < 0x80) (s : Bytes) :
    symbols (b :: s) = .char (charOfByte b) :: symbols s := by
  rw [← symbols_utf8EncodeChar_append, utf8EncodeChar_charOfByte h, List.singleton_append]

theorem encode_ascii {cs : List Char} (h : ∀ c ∈ cs, c.toNat < 0x80) :
    encode cs = cs.map ascii := by
  induction cs with
  | nil => rfl
  | cons c cs ih =>
      rw [List.forall_mem_cons] at h
      rw [encode_cons, utf8EncodeChar_ascii h.1, ih h.2, List.map_cons, List.singleton_append]

theorem encode_map_charOfByte {s : Bytes} (h : ∀ b ∈ s, b.toNat < 0x80) :
    encode (s.map charOfByte) = s := by
  induction s with
  | nil => rfl
  | cons b s ih =>
      rw [List.forall_mem_cons] at h
      rw [List.map_cons, encode_cons, utf8EncodeChar_charOfByte h.1, ih h.2,
        List.singleton_append]

/-!
## Where a character begins
-/

theorem Octets.isContinuation_of_mem_tail {c : Char} {o : Bytes} (h : Octets c o) :
    ∀ b ∈ o.tail, isContinuation b = true := by
  intro b hb
  rw [isContinuation_iff]
  cases h with
  | one => cases hb
  | two =>
      simp only [List.tail_cons, List.mem_cons, List.not_mem_nil, or_false] at hb
      subst hb
      omega
  | three =>
      simp only [List.tail_cons, List.mem_cons, List.not_mem_nil, or_false] at hb
      rcases hb with rfl | rfl <;> omega
  | four =>
      simp only [List.tail_cons, List.mem_cons, List.not_mem_nil, or_false] at hb
      rcases hb with rfl | rfl | rfl <;> omega

theorem Octets.isContinuation_head {c : Char} {b : UInt8} {o : Bytes} (h : Octets c (b :: o)) :
    isContinuation b = false := by
  have hmax : c.toNat ≤ 0x10FFFF := c.toNat_le_max
  rw [← Bool.not_eq_true, isContinuation_iff]
  cases h <;> omega

/-- A byte that begins no character does not begin one when a character is put behind: its
first byte continues no other. -/
theorem decode?_append_utf8EncodeChar {s : Bytes} (hs : s ≠ []) (h : decode? s = none) (c : Char)
    (t : Bytes) : decode? (s ++ (String.utf8EncodeChar c ++ t)) = none := by
  rw [decode?_eq_none_iff] at h ⊢
  rintro ⟨d, rest, hread⟩
  rcases List.append_eq_append_iff.1 hread with ⟨x, hd, hrest⟩ | ⟨x, hsplit, -⟩
  · cases x with
    | nil => exact h ⟨d, [], by rw [hd, List.append_nil, List.append_nil]⟩
    | cons b x =>
        -- The character read would reach over the first byte of `c`.
        obtain ⟨first, s, rfl⟩ := List.exists_cons_of_ne_nil hs
        have hcont : isContinuation b = true := by
          refine (octets_utf8EncodeChar d).isContinuation_of_mem_tail b ?_
          rw [hd]
          simp
        obtain ⟨b', o, ho⟩ := List.exists_cons_of_ne_nil (String.utf8EncodeChar_ne_nil (c := c))
        have hfirst : isContinuation b' = false := by
          have hoctets := octets_utf8EncodeChar c
          rw [ho] at hoctets
          exact hoctets.isContinuation_head
        rw [ho] at hrest
        obtain ⟨rfl, -⟩ := List.cons.inj hrest
        rw [hcont] at hfirst
        cases hfirst
  · exact h ⟨d, x, hsplit⟩

/-- A character stands for itself whatever is in front of it, even a character broken off. -/
theorem symbols_append_utf8EncodeChar (s : Bytes) (c : Char) (t : Bytes) :
    symbols (s ++ (String.utf8EncodeChar c ++ t)) = symbols s ++ .char c :: symbols t := by
  induction s using symbolInduction with
  | nil => exact symbols_utf8EncodeChar_append c t
  | char d s ih =>
      rw [List.append_assoc, symbols_utf8EncodeChar_append, symbols_utf8EncodeChar_append, ih,
        List.cons_append]
  | stray b s h ih =>
      have hstill := decode?_append_utf8EncodeChar (List.cons_ne_nil b s) h c t
      rw [List.cons_append] at hstill ⊢
      rw [symbols_cons_stray hstill, symbols_cons_stray h, ih, List.cons_append]

theorem symbols_append_encode (s : Bytes) (cs : List Char) :
    symbols (s ++ encode cs) = symbols s ++ cs.map Symbol.char := by
  cases cs with
  | nil => simp [encode]
  | cons c cs => rw [encode_cons, symbols_append_utf8EncodeChar, symbols_encode, List.map_cons]

/-!
## Valid byte strings
-/

theorem isValid_encode (cs : List Char) : isValid (encode cs) = true := by
  rw [isValid, symbols_encode, List.all_map]
  exact List.all_eq_true.2 fun _ _ => rfl

/-- What is valid is its own characters, so reading it replaces nothing. -/
theorem encode_toChars {s : Bytes} (h : isValid s = true) : encode (toChars s) = s := by
  have hchar : ∀ x ∈ symbols s, String.utf8EncodeChar x.toChar = x.bytes := by
    intro x hx
    cases x with
    | char c => rfl
    | stray b => exact absurd (List.all_eq_true.1 h _ hx) Bool.false_ne_true
  calc encode (toChars s) = (symbols s).flatMap fun x => String.utf8EncodeChar x.toChar := by
        rw [encode, toChars, List.flatMap_map]
    _ = (symbols s).flatMap Symbol.bytes := List.flatMap_congr hchar
    _ = s := flatMap_bytes_symbols s

theorem isValid_iff {s : Bytes} : isValid s = true ↔ ∃ cs, s = encode cs := by
  constructor
  · exact fun h => ⟨toChars s, (encode_toChars h).symm⟩
  · rintro ⟨cs, rfl⟩
    exact isValid_encode cs

theorem isValid_text (t : String) : isValid (text t) = true := isValid_encode t.toList

theorem toChars_append_encode (s : Bytes) (cs : List Char) :
    toChars (s ++ encode cs) = toChars s ++ cs := by
  rw [toChars, symbols_append_encode, List.map_append, List.map_map, toChars]
  congr 1
  exact List.map_id cs

theorem toChars_text (t : String) : toChars (text t) = t.toList :=
  toChars_append_encode [] t.toList

theorem isValid_append {s t : Bytes} (hs : isValid s = true) (ht : isValid t = true) :
    isValid (s ++ t) = true := by
  obtain ⟨cs, rfl⟩ := isValid_iff.1 hs
  obtain ⟨ds, rfl⟩ := isValid_iff.1 ht
  exact isValid_iff.2 ⟨cs ++ ds, (encode_append cs ds).symm⟩

theorem isValid_flatMap {cs : List Char} {f : Char → Bytes}
    (h : ∀ c, isValid (f c) = true) : isValid (cs.flatMap f) = true := by
  induction cs with
  | nil => rfl
  | cons c cs ih => exact isValid_append (h c) ih

/-- Behind a valid byte string, reading starts afresh. -/
theorem symbols_append {s : Bytes} (h : isValid s = true) (t : Bytes) :
    symbols (s ++ t) = symbols s ++ symbols t := by
  obtain ⟨cs, rfl⟩ := isValid_iff.1 h
  rw [symbols_encode_append, symbols_encode]

/-!
## Mending
-/

/-- The second byte string is the first one with one replacement character in the place of
each byte at which no character begins. -/
inductive Mends : Bytes → Bytes → Prop where
  | nil : Mends [] []
  | char (c : Char) {s t : Bytes} (h : Mends s t) :
      Mends (String.utf8EncodeChar c ++ s) (String.utf8EncodeChar c ++ t)
  | stray {b : UInt8} {s t : Bytes} (hb : ¬ ∃ c rest, b :: s = String.utf8EncodeChar c ++ rest)
      (h : Mends s t) : Mends (b :: s) (String.utf8EncodeChar replacement ++ t)

theorem toChars_utf8EncodeChar_append (c : Char) (s : Bytes) :
    toChars (String.utf8EncodeChar c ++ s) = c :: toChars s := by
  rw [toChars, symbols_utf8EncodeChar_append, List.map_cons]
  rfl

theorem toChars_cons_stray {b : UInt8} {s : Bytes} (h : decode? (b :: s) = none) :
    toChars (b :: s) = replacement :: toChars s := by
  rw [toChars, symbols_cons_stray h, List.map_cons]
  rfl

theorem mends_encode_toChars (s : Bytes) : Mends s (encode (toChars s)) := by
  induction s using symbolInduction with
  | nil => exact .nil
  | char c s ih =>
      rw [toChars_utf8EncodeChar_append, encode_cons]
      exact .char c ih
  | stray b s h ih =>
      rw [toChars_cons_stray h, encode_cons]
      exact .stray (decode?_eq_none_iff.1 h) ih

/-- There is one way to mend a byte string: to read it and to write down what was read. -/
theorem mends_iff {s t : Bytes} : Mends s t ↔ t = encode (toChars s) := by
  constructor
  · intro h
    induction h with
    | nil => rfl
    | char c _ ih => rw [ih, toChars_utf8EncodeChar_append, encode_cons]
    | stray hb _ ih =>
        rw [ih, toChars_cons_stray (decode?_eq_none_iff.2 hb), encode_cons]
  · rintro rfl
    exact mends_encode_toChars s

/-!
## Cutting symbols
-/

/-- The symbols of a byte string can be cut anywhere, and each part is read by itself as it was
read in the whole. -/
theorem symbols_cut {s : Bytes} {front back : List Symbol} (h : symbols s = front ++ back) :
    symbols (front.flatMap Symbol.bytes) = front ∧ symbols (back.flatMap Symbol.bytes) = back := by
  induction s using symbolInduction generalizing front with
  | nil =>
      obtain ⟨rfl, rfl⟩ := List.append_eq_nil_iff.1 h.symm
      exact ⟨rfl, rfl⟩
  | char c s ih =>
      cases front with
      | nil =>
          rw [List.nil_append] at h
          exact ⟨rfl, by rw [← h, flatMap_bytes_symbols]⟩
      | cons x front =>
          rw [symbols_utf8EncodeChar_append, List.cons_append, List.cons.injEq] at h
          obtain ⟨rfl, h⟩ := h
          obtain ⟨hfront, hback⟩ := ih h
          exact ⟨by rw [List.flatMap_cons, Symbol.bytes, symbols_utf8EncodeChar_append, hfront],
            hback⟩
  | stray b s hb ih =>
      cases front with
      | nil =>
          rw [List.nil_append] at h
          exact ⟨rfl, by rw [← h, flatMap_bytes_symbols]⟩
      | cons x front =>
          rw [symbols_cons_stray hb, List.cons_append, List.cons.injEq] at h
          obtain ⟨rfl, h⟩ := h
          obtain ⟨hfront, hback⟩ := ih h
          -- With less behind it, the byte begins a character even less.
          have hstray : decode? (b :: front.flatMap Symbol.bytes) = none := by
            rw [decode?_eq_none_iff] at hb ⊢
            rintro ⟨c, rest, hread⟩
            refine hb ⟨c, rest ++ back.flatMap Symbol.bytes, ?_⟩
            rw [← List.append_assoc, ← hread, ← flatMap_bytes_symbols s, h, List.flatMap_append,
              List.cons_append]
          refine ⟨?_, hback⟩
          rw [List.flatMap_cons, Symbol.bytes, List.singleton_append, symbols_cons_stray hstray,
            hfront]

/-- Behind a character a byte string can be continued without a change of its symbols. -/
theorem symbols_append_of_last {s : Bytes} {front : List Symbol} {c : Char}
    (h : symbols s = front ++ [.char c]) (t : Bytes) :
    symbols (s ++ t) = symbols s ++ symbols t := by
  have hs : s = front.flatMap Symbol.bytes ++ String.utf8EncodeChar c := by
    rw [← flatMap_bytes_symbols s, h, List.flatMap_append, List.flatMap_singleton, Symbol.bytes]
  rw [h, hs, List.append_assoc, symbols_append_utf8EncodeChar, (symbols_cut h).1,
    List.append_assoc, List.singleton_append]

end Utf8

/-!
## Runs
-/

section Runs

variable {α : Type} {p : α → Bool}

/-- A run is taken whole where it ends. -/
theorem takeWhile_append_eq {run rest : List α} (inside : ∀ a ∈ run, p a = true)
    (ends : ∀ a ∈ rest.head?, p a = false) : (run ++ rest).takeWhile p = run := by
  rw [List.takeWhile_append_of_pos inside]
  cases rest with
  | nil => simp
  | cons a rest => simp [ends a rfl]

theorem dropWhile_append_eq {run rest : List α} (inside : ∀ a ∈ run, p a = true)
    (ends : ∀ a ∈ rest.head?, p a = false) : (run ++ rest).dropWhile p = rest := by
  rw [List.dropWhile_append_of_pos inside]
  cases rest with
  | nil => rfl
  | cons a rest => simp [ends a rfl]

theorem head?_dropWhile_eq_false {l : List α} : ∀ a ∈ (l.dropWhile p).head?, p a = false := by
  intro a ha
  have h := List.head?_dropWhile_not p l
  rw [Option.mem_def.1 ha] at h
  simpa using h

end Runs

end CrossCompiler
