import CrossCompiler.Proofs.Lexer.Neighbours
import CrossCompiler.Proofs.Lexer.Place
import CrossCompiler.Proofs.Lexer.Tokenize

/-!
# Where items stand

The scanner keeps its place as it goes, symbol by symbol, whatever it is reading.  The place it
gives an item is the one a reader would count in the source, who takes the bytes in front of the
item by themselves: one line more for every line feed in them, and one column more for every
character behind the last of these.  A byte at which no character begins is one column wide.
-/

namespace CrossCompiler

/-- The number of characters in a byte string, where a byte at which none begins counts like a
character. -/
inductive Utf8.Measures : Bytes → Nat → Prop
  | nil : Measures [] 0
  | char (c : Char) {s : Bytes} {n : Nat} (rest : Measures s n) :
      Measures (String.utf8EncodeChar c ++ s) (n + 1)
  | stray {b : UInt8} {s : Bytes} {n : Nat}
      (broken : ¬ ∃ c rest, b :: s = String.utf8EncodeChar c ++ rest) (rest : Measures s n) :
      Measures (b :: s) (n + 1)

/-- Reading gives as many symbols as can be counted. -/
theorem Utf8.measures_symbols (s : Bytes) : Measures s (symbols s).length := by
  induction s using symbolInduction with
  | nil => exact .nil
  | char c s ih =>
      rw [symbols_utf8EncodeChar_append, List.length_cons]
      exact .char c ih
  | stray b s h ih =>
      rw [symbols_cons_stray h, List.length_cons]
      exact .stray (decode?_eq_none_iff.1 h) ih

/-- A place as it is counted on the bytes in front of it. -/
structure Pos.Counted (before : Bytes) (pos : Pos) : Prop where
  offset : pos.offset = before.length
  line : pos.line = 1 + before.count lineFeed
  column : ∃ width, Utf8.Measures (lastLine before) width ∧ pos.column = 1 + width

theorem Pos.counted_behind (before : Bytes) : Counted before (start.behind before) where
  offset := Int.zero_add _
  line := rfl
  column := by
    refine ⟨_, Utf8.measures_symbols (lastLine before), ?_⟩
    by_cases hlines : lineFeed ∈ before
    · exact if_pos hlines
    · rw [lastLine_of_not_mem hlines]
      exact if_neg hlines

namespace Lexer

/-- Every item shows a lexeme of the source and stands where the bytes in front of the lexeme
end, by their number, their line feeds and the characters behind the last line feed. -/
theorem request_place_counted {n : Nat} {source : Bytes} {item : Item}
    (h : some item ∈ requests n (.ofBytes source)) :
    ∃ before lexeme after, source = before ++ (lexeme ++ after) ∧ lexeme ≠ [] ∧
      Shows lexeme item ∧ item.pos.Counted before := by
  obtain ⟨cut, front, rest, hstands, rfl⟩ := exists_stands_of_request h
  refine ⟨_, _, _, hstands.bytes_eq, cut.piece_lexeme_ne_nil, shows_classify _ cut.joined, ?_⟩
  have hplace : Pos.start.advanceAll front = Pos.start.behind (front.flatMap Symbol.bytes) := by
    rw [← Pos.advanceAll_symbols, hstands.symbols_front]
  rw [pos_classify, hplace]
  exact Pos.counted_behind _

/-- Behind a line feed, a carriage return and the line separators U+0085 and U+2028 take a
column each, and so do a byte that is no character and a character of two bytes. -/
theorem request_place_counted_separators :
    let source := text "int\n\r" ++ Utf8.encode ['\u0085', '\u2028'] ++ [0xFF] ++ text "é 7"
    let item : Item := .token ⟨.constant, [], 7, ⟨14, 2, 7⟩⟩
    some item ∈ requests 4 (.ofBytes source) ∧
      ∃ before lexeme after, source = before ++ (lexeme ++ after) ∧ lexeme ≠ [] ∧
        Shows lexeme item ∧ item.pos.Counted before := by
  intro source item
  have hitem : some item ∈ requests 4 (.ofBytes source) := by decide +kernel
  exact ⟨hitem, request_place_counted hitem⟩

end Lexer
end CrossCompiler
