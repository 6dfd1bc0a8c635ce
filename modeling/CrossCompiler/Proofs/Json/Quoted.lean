import CrossCompiler.Json.Quoted
import CrossCompiler.Json.Reader
import CrossCompiler.Proofs.Utf8

/-!
# Written strings are read back

Each character of a string is written in one of three ways: by itself, by a letter behind a
backslash, or by its number in four hexadecimal digits.  The reader takes each of them back
for the character, so a written string is read as the characters it was written from, with
nothing of what follows it.
-/

namespace CrossCompiler
namespace Json

open Utf8

/-!
## Escapes by number
-/

theorem hexDigit_lt : ∀ n < 16, (Bytes.hexDigit n).toNat < 0x80 := by decide

theorem hexValue?_hexDigit :
    ∀ n < 16, hexValue? (.char (charOfByte (Bytes.hexDigit n))) = some n := by decide

theorem hex_four (n : Nat) : Bytes.hex 4 n =
    [Bytes.hexDigit (n / 4096 % 16), Bytes.hexDigit (n / 256 % 16), Bytes.hexDigit (n / 16 % 16),
      Bytes.hexDigit (n % 16)] := by
  simp [Bytes.hex, Nat.div_div_eq_div_mul]

theorem stringBody_hexEscape {c : Char} (h : c.toNat < 0x10000) (s : Bytes) :
    stringBody (symbols (hexEscape c ++ s)) =
      consPiece (.escaped c.toNat) (stringBody (symbols s)) := by
  have hdigit : ∀ n, n % 16 < 16 := fun n => Nat.mod_lt n (by decide)
  have hcode : c.toNat / 4096 % 16 * 4096 + c.toNat / 256 % 16 * 256 + c.toNat / 16 % 16 * 16 +
      c.toNat % 16 = c.toNat := by omega
  have hstart : "\\u".toList = ['\\', 'u'] := rfl
  rw [hexEscape, hex_four, List.append_assoc, symbols_text_append, hstart]
  simp only [List.cons_append, List.nil_append, List.map_cons, List.map_nil,
    symbols_cons_ascii (hexDigit_lt _ (hdigit _)), stringBody, hexCode,
    hexValue?_hexDigit _ (hdigit _), hcode]

/-!
## Escapes by letter
-/

/-- What a letter behind a backslash stands for, as the writer chooses it, is what the reader
takes it for. -/
theorem escape?_of_shortEscape? {c letter : Char} (h : shortEscape? c = some letter) :
    escape? letter = some c ∧ letter ≠ 'u' ∧ letter.toNat < 0x80 := by
  have hc : Char.ofNat c.toNat = c := Char.ofNat_toNat c
  unfold shortEscape? at h
  split at h
  case h_8 => cases h
  all_goals
    next hcode =>
    obtain rfl := Option.some.inj h
    rw [hcode] at hc
    subst hc
    decide

theorem stringBody_escape {c letter : Char} (hletter : letter ≠ 'u') (h : escape? letter = some c)
    (s : List Symbol) :
    stringBody (.char '\\' :: .char letter :: s) = consPiece (.char c) (stringBody s) := by
  rw [stringBody]
  · simp only [h]
  · exact fun _ _ _ _ _ _ => hletter
  · exact hletter

theorem encode_shortEscape {c letter : Char} (h : shortEscape? c = some letter) :
    encode ['\\', letter] = [ascii '\\', ascii letter] := by
  obtain ⟨-, -, hascii⟩ := escape?_of_shortEscape? h
  exact encode_ascii (by simpa using hascii)

theorem stringBody_shortEscape {c letter : Char} (h : shortEscape? c = some letter) (s : Bytes) :
    stringBody (symbols ([ascii '\\', ascii letter] ++ s)) =
      consPiece (.char c) (stringBody (symbols s)) := by
  obtain ⟨hescape, hletter, -⟩ := escape?_of_shortEscape? h
  rw [← encode_shortEscape h, symbols_encode_append]
  exact stringBody_escape hletter hescape _

/-!
## Whole strings
-/

theorem stringBody_plain {c : Char} (hquote : c ≠ '"') (hbackslash : c ≠ '\\')
    (hcontrol : ¬ c.toNat < 0x20) (s : List Symbol) :
    stringBody (.char c :: s) = consPiece (.char c) (stringBody s) := by
  rw [stringBody]
  · simp only [hcontrol, if_false]
  · exact hquote
  · exact fun _ _ _ _ _ _ => hbackslash
  · exact fun _ _ => hbackslash
  · exact fun _ _ _ => hbackslash
  · exact fun _ _ _ => hbackslash
  · exact fun _ => hbackslash

/-- A piece that stands for a character wherever it is read. -/
def Piece.StandsFor (piece : Piece) (c : Char) : Prop :=
  ∀ pieces, joinPieces none (piece :: pieces) = c :: joinPieces none pieces

theorem standsFor_char (c : Char) : (Piece.char c).StandsFor c := fun _ => rfl

/-- The number of a character is that of no surrogate. -/
theorem standsFor_escaped (c : Char) : (Piece.escaped c.toNat).StandsFor c := by
  intro pieces
  have hvalid : c.toNat.isValidChar := c.valid
  have hhigh : isHigh c.toNat = false := by
    have hsurrogate := c.toNat_not_surrogate
    simp only [isHigh, Bool.and_eq_false_iff, decide_eq_false_iff_not]
    omega
  simp only [joinPieces, hhigh, Bool.false_eq_true, if_false, escapedChar, if_pos hvalid,
    Char.ofNat_toNat]

/-- However a character is written, the reader takes one piece for it. -/
theorem stringBody_writeChar (markup : Markup) (c : Char) : ∃ piece : Piece, piece.StandsFor c ∧
    ∀ s, stringBody (symbols (writeChar markup c ++ s)) =
      consPiece piece (stringBody (symbols s)) := by
  unfold writeChar
  split
  · next letter h => exact ⟨.char c, standsFor_char c, stringBody_shortEscape h⟩
  · next h =>
    split_ifs with hcontrol hmarkup hseparator
    · exact ⟨_, standsFor_escaped c, stringBody_hexEscape (by omega)⟩
    · have hlt : c.toNat < 0x10000 := by
        rcases hmarkup.2 with rfl | rfl | rfl <;> decide
      exact ⟨_, standsFor_escaped c, stringBody_hexEscape hlt⟩
    · have hlt : c.toNat < 0x10000 := by
        rcases hseparator with rfl | rfl <;> decide
      exact ⟨_, standsFor_escaped c, stringBody_hexEscape hlt⟩
    -- The quote and the backslash have been escaped by a letter above.
    · refine ⟨.char c, standsFor_char c, fun s => ?_⟩
      rw [symbols_utf8EncodeChar_append]
      refine stringBody_plain ?_ ?_ hcontrol _
      · rintro rfl
        cases h
      · rintro rfl
        cases h

theorem stringBody_quote (s : Bytes) :
    stringBody (symbols (text "\"" ++ s)) = .ok ([], symbols s) := by
  rw [symbols_text_append]
  rfl

theorem stringBody_written (markup : Markup) (cs : List Char) (s : Bytes) :
    ∃ pieces, joinPieces none pieces = cs ∧
      stringBody (symbols (cs.flatMap (writeChar markup) ++ (text "\"" ++ s))) =
        .ok (pieces, symbols s) := by
  induction cs with
  | nil => exact ⟨[], rfl, stringBody_quote s⟩
  | cons c cs ih =>
      obtain ⟨pieces, hjoin, hread⟩ := ih
      obtain ⟨piece, hpiece, hstep⟩ := stringBody_writeChar markup c
      refine ⟨piece :: pieces, by rw [hpiece, hjoin], ?_⟩
      rw [List.flatMap_cons, List.append_assoc, hstep, hread, consPiece]

/-- A written string is read as the characters it was written from. -/
theorem string_written (markup : Markup) (cs : List Char) (s : Bytes) :
    string (symbols (cs.flatMap (writeChar markup) ++ (text "\"" ++ s))) = .ok (cs, symbols s) := by
  obtain ⟨pieces, hjoin, hread⟩ := stringBody_written markup cs s
  simp only [string, hread, bind, Except.bind, pure, Except.pure, hjoin]

end Json
end CrossCompiler
