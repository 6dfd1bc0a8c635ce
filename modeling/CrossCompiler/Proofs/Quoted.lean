import CrossCompiler.Proofs.Utf8
import CrossCompiler.Text.Quoted

/-!
# Quoted text can be read back

`unescape?` takes one symbol off a quoted text.  What stands behind a backslash tells in which
way the symbol was written: by a letter, by itself, or by its number in two, four or eight
hexadecimal digits.  Only two digits leave a choice, between a control character and a stray byte;
but characters of ASCII are never stray.  So a quoted text shows one byte string only.
-/

namespace CrossCompiler

namespace Bytes

/-- The value of a lower-case hexadecimal digit. -/
def digitValue (b : UInt8) : Nat := if b.toNat < 58 then b.toNat - 48 else b.toNat - 87

/-- The number that hexadecimal digits stand for. -/
def hexValue (digits : Bytes) : Nat := digits.foldl (fun value b => 16 * value + digitValue b) 0

theorem digitValue_hexDigit : ∀ n < 16, digitValue (hexDigit n) = n := by decide

@[simp]
theorem length_hex (width n : Nat) : (hex width n).length = width := by
  induction width generalizing n with
  | zero => rfl
  | succ width ih => simp [hex, ih]

/-- A number that fits is what its digits stand for. -/
theorem hexValue_hex {width n : Nat} (h : n < 16 ^ width) : hexValue (hex width n) = n := by
  induction width generalizing n with
  | zero =>
      obtain rfl : n = 0 := by simpa using h
      rfl
  | succ width ih =>
      have hfront : hexValue (hex width (n / 16)) = n / 16 := ih (by omega)
      rw [hexValue] at hfront
      rw [hexValue, hex, List.foldl_append, List.foldl_cons, List.foldl_nil, hfront,
        digitValue_hexDigit _ (Nat.mod_lt n (by decide))]
      omega

end Bytes

/-- A symbol as it can be read from a byte string: no byte of ASCII is stray. -/
def Symbol.IsRead : Symbol → Prop
  | .char _ => True
  | .stray b => 0x80 ≤ b.toNat

theorem Utf8.isRead_of_mem_symbols {s : Bytes} {x : Symbol} (h : x ∈ symbols s) : x.IsRead := by
  induction s using symbolInduction with
  | nil => cases h
  | char c s ih =>
      rw [symbols_utf8EncodeChar_append] at h
      rcases List.mem_cons.1 h with rfl | hrest
      · trivial
      · exact ih hrest
  | stray b s hb ih =>
      rw [symbols_cons_stray hb] at h
      rcases List.mem_cons.1 h with rfl | hrest
      · -- Below that, the byte would have been read as a character of ASCII.
        refine Nat.le_of_not_lt fun hlt => decode?_eq_none_iff.1 hb ⟨charOfByte b, s, ?_⟩
        rw [utf8EncodeChar_charOfByte hlt, List.singleton_append]
      · exact ih hrest

namespace Quoted

open Utf8

/-- How many digits of a number follow a letter behind a backslash. -/
def width? (letter : UInt8) : Option Nat :=
  if letter = ascii 'x' then some 2
  else if letter = ascii 'u' then some 4
  else if letter = ascii 'U' then some 8
  else none

/-- The symbol with a number that was written in so many digits. -/
def numbered (width value : Nat) : Symbol :=
  if width = 2 ∧ 0x80 ≤ value then .stray (UInt8.ofNat value) else .char (Char.ofNat value)

/-- What a letter behind a backslash stands for; any other character stands for itself. -/
def named (letter : UInt8) : Char :=
  if letter = ascii 'a' then '\x07'
  else if letter = ascii 'b' then '\x08'
  else if letter = ascii 't' then '\t'
  else if letter = ascii 'n' then '\n'
  else if letter = ascii 'v' then '\x0b'
  else if letter = ascii 'f' then '\x0c'
  else if letter = ascii 'r' then '\r'
  else charOfByte letter

/-- The symbol behind a backslash and the text behind the symbol. -/
def unescapeBehind? : Bytes → Option (Symbol × Bytes)
  | [] => none
  | letter :: rest =>
    match width? letter with
    | some width => some (numbered width (Bytes.hexValue (rest.take width)), rest.drop width)
    | none => some (.char (named letter), rest)

/-- The first symbol of a quoted text and the text behind it. -/
def unescape? : Bytes → Option (Symbol × Bytes)
  | [] => none
  | b :: rest =>
    if b = ascii '\\' then unescapeBehind? rest
    else (decode? (b :: rest)).map fun (c, behind) => (.char c, behind)

theorem unescape?_numbered (letter : UInt8) {width n : Nat} (hletter : width? letter = some width)
    (hn : n < 16 ^ width) (s : Bytes) :
    unescape? (ascii '\\' :: letter :: (Bytes.hex width n ++ s)) = some (numbered width n, s) := by
  have hlength := Bytes.length_hex width n
  rw [unescape?, if_pos rfl, unescapeBehind?, hletter]
  simp only [List.take_left' hlength, List.drop_left' hlength, Bytes.hexValue_hex hn]

theorem unescape?_named {letter : UInt8} (hletter : width? letter = none) (s : Bytes) :
    unescape? (ascii '\\' :: letter :: s) = some (.char (named letter), s) := by
  rw [unescape?, if_pos rfl, unescapeBehind?, hletter]

/-- A character that is not written with a backslash stands for itself. -/
theorem unescape?_plain {c : Char} (hc : c ≠ '\\') (s : Bytes) :
    unescape? (String.utf8EncodeChar c ++ s) = some (.char c, s) := by
  have hread : decode? (String.utf8EncodeChar c ++ s) = some (c, s) := decode?_eq_some_iff.2 rfl
  cases hbytes : String.utf8EncodeChar c ++ s with
  | nil => simp [hbytes, decode?] at hread
  | cons b rest =>
      -- A character that begins with the byte of the backslash is the backslash.
      have hb : b ≠ ascii '\\' := by
        rintro rfl
        have hbackslash : String.utf8EncodeChar '\\' = [ascii '\\'] := rfl
        rw [← List.singleton_append, ← hbackslash] at hbytes
        exact hc (utf8EncodeChar_append_inj hbytes).1
      rw [hbytes] at hread
      rw [unescape?, if_neg hb, hread, Option.map_some]

theorem named_controlLetter {c letter : Char} (h : controlLetter? c = some letter) :
    width? (ascii letter) = none ∧ named (ascii letter) = c := by
  -- The letters go by the codes of the characters.
  have hc : Char.ofNat c.toNat = c := Char.ofNat_toNat c
  unfold controlLetter? at h
  split at h
  case h_8 => cases h
  all_goals
    next hcode =>
    obtain rfl := Option.some.inj h
    rw [hcode] at hc
    rw [← hc]
    exact ⟨rfl, rfl⟩

/-- A character written by its number. -/
theorem unescape?_charNumber {c : Char} (letter : UInt8) {width : Nat}
    (hletter : width? letter = some width) (hwidth : c.toNat < 16 ^ width)
    (hlow : width = 2 → c.toNat < 0x80) (s : Bytes) :
    unescape? (ascii '\\' :: letter :: (Bytes.hex width c.toNat ++ s)) = some (.char c, s) := by
  rw [unescape?_numbered letter hletter hwidth, numbered, if_neg, Char.ofNat_toNat]
  rintro ⟨htwo, hhigh⟩
  exact Nat.not_lt.2 hhigh (hlow htwo)

theorem unescape?_escapeChar (c : Char) (s : Bytes) :
    unescape? (escapeChar '"' c ++ s) = some (.char c, s) := by
  have hmax : c.toNat ≤ 0x10FFFF := c.toNat_le_max
  unfold escapeChar
  split
  · next hescaped =>
    rcases hescaped with rfl | rfl
    · exact unescape?_named (by decide) s
    · exact unescape?_named (by decide) s
  · next hescaped =>
    split
    · exact unescape?_plain (fun h => hescaped (.inr h)) s
    · split
      · next letter hletter =>
        obtain ⟨hnone, hnamed⟩ := named_controlLetter hletter
        exact (unescape?_named hnone s).trans (by rw [hnamed])
      · split_ifs
        · exact unescape?_charNumber (ascii 'x') rfl (by omega) (by omega) s
        · exact unescape?_charNumber (ascii 'u') rfl (by omega) (by omega) s
        · exact unescape?_charNumber (ascii 'U') rfl (by omega) (by omega) s

/-- Every symbol that can be read from a byte string is read back where it has been quoted. -/
theorem unescape?_escape {x : Symbol} (hx : x.IsRead) (s : Bytes) :
    unescape? (escape '"' x ++ s) = some (x, s) := by
  cases x with
  | char c => exact unescape?_escapeChar c s
  | stray b =>
      have hlt := b.toNat_lt
      refine (unescape?_numbered (ascii 'x') rfl (by omega) s).trans ?_
      rw [numbered, if_pos ⟨rfl, hx⟩, UInt8.ofNat_toNat]

theorem escape_ne_nil {x : Symbol} (hx : x.IsRead) : escape '"' x ≠ [] := by
  intro h
  have hread := unescape?_escape hx []
  rw [h] at hread
  cases hread

theorem flatMap_escape_inj {xs ys : List Symbol} (hxs : ∀ x ∈ xs, x.IsRead)
    (hys : ∀ y ∈ ys, y.IsRead) (h : xs.flatMap (escape '"') = ys.flatMap (escape '"')) :
    xs = ys := by
  induction xs generalizing ys with
  | nil =>
      refine (List.eq_nil_iff_forall_not_mem.2 fun y hy => ?_).symm
      exact escape_ne_nil (hys y hy) (List.flatMap_eq_nil_iff.1 h.symm y hy)
  | cons x xs ih =>
      obtain ⟨hx, hxs'⟩ := List.forall_mem_cons.1 hxs
      cases ys with
      | nil => exact absurd (List.flatMap_eq_nil_iff.1 h x List.mem_cons_self) (escape_ne_nil hx)
      | cons y ys =>
          obtain ⟨hy, hys'⟩ := List.forall_mem_cons.1 hys
          -- Both texts begin with one symbol, and it is read from the same bytes.
          have hread := congrArg unescape? h
          rw [List.flatMap_cons, List.flatMap_cons, unescape?_escape hx, unescape?_escape hy]
            at hread
          obtain ⟨rfl, hrest⟩ := Prod.mk.inj (Option.some.inj hread)
          rw [ih hxs' hys' hrest]

end Quoted

/-- A byte string can be told from what is shown of it. -/
theorem quote_injective : Function.Injective quote := by
  intro s t h
  have hescaped : (Utf8.symbols s).flatMap (Quoted.escape '"') =
      (Utf8.symbols t).flatMap (Quoted.escape '"') := by
    rw [quote, quote, List.append_assoc, List.append_assoc] at h
    exact List.append_cancel_right (List.append_cancel_left h)
  have hsymbols : Utf8.symbols s = Utf8.symbols t :=
    Quoted.flatMap_escape_inj (fun _ => Utf8.isRead_of_mem_symbols)
      (fun _ => Utf8.isRead_of_mem_symbols) hescaped
  rw [← Utf8.flatMap_bytes_symbols s, hsymbols, Utf8.flatMap_bytes_symbols]

end CrossCompiler
