import CrossCompiler.Proofs.Lexer.Grammar
import CrossCompiler.Proofs.Lexer.Place

/-!
# Lexing in parts

White space takes no part in any lexeme, and it is read as itself even behind a character
that is broken off.  So a source can be cut at white space: its items are those of the two
parts, and only the places of the second part differ, by what stands in front of it.
-/

namespace CrossCompiler
namespace Lexer

/-- The items of a cursor are decided by its next item and by what follows that. -/
theorem items_congr {c d : Cursor} (h : next? c = next? d) : items c = items d := by
  cases hd : next? d with
  | none => rw [items_of_none (h.trans hd), items_of_none hd]
  | some found => rw [items_of_some (h.trans hd), items_of_some hd]

/-- White space in front is passed over. -/
theorem items_blanks_append (pos : Pos) {blanks : List Symbol}
    (blank : ∀ s ∈ blanks, isBlank s = true) (rest : List Symbol) :
    items ⟨pos, blanks ++ rest⟩ = items ⟨pos.advanceAll blanks, rest⟩ := by
  have hskip : Cursor.skipBlanks ⟨pos, blanks ++ rest⟩ =
      Cursor.skipBlanks ⟨pos.advanceAll blanks, rest⟩ := by
    simp only [Cursor.skipBlanks, List.takeWhile_append_of_pos blank,
      List.dropWhile_append_of_pos blank, advanceAll_append]
  refine items_congr ?_
  rw [next?, next?, hskip]

/-- What stands behind white space changes nothing in front of it. -/
theorem Scans.items_append {s trailing : List Symbol} {cuts : List Cut}
    (h : Scans s cuts trailing) {rest : List Symbol} (hblank : ∀ a ∈ rest.head?, isBlank a = true)
    (pos : Pos) :
    items ⟨pos, s ++ rest⟩ = itemsOf pos cuts ++ items ⟨pos.advanceAll s, rest⟩ := by
  induction h generalizing pos with
  | done blank => exact items_blanks_append pos blank rest
  | @cut cut behind _ _ ends _ ih =>
      have hends : ∀ a ∈ (behind ++ rest).head?, continues cut.first a = false := by
        intro a ha
        cases behind with
        | nil => exact continues_blank cut.first (hblank a ha)
        | cons b behind => exact ends a ha
      rw [List.append_assoc, items_of_some (next?_of_cut pos cut hends), ih, itemsOf,
        advanceAll_append, List.cons_append]

/-- An item at another place. -/
def Item.mapPos (f : Pos → Pos) : Item → Item
  | .token t => .token { t with pos := f t.pos }
  | .error e => .error { e with pos := f e.pos }

/-- An item without regard to its place. -/
def Item.unplaced (item : Item) : Item := item.mapPos fun _ => .start

theorem Item.unplaced_mapPos (f : Pos → Pos) (item : Item) :
    (item.mapPos f).unplaced = item.unplaced := by
  cases item <;> rfl

/-- The place of a lexeme has no part in what the lexeme gives. -/
theorem classify_mapPos (f : Pos → Pos) (pos : Pos) (first : Symbol) (tail : List Symbol) :
    classify (f pos) first tail = (classify pos first tail).mapPos f := by
  cases first with
  | stray b => rfl
  | char c =>
      simp only [classify]
      split
      · rfl
      · split_ifs <;> rfl

theorem itemsOf_moved (front : Bytes) {pos : Pos} (h : 1 ≤ pos.line) (cuts : List Cut) :
    itemsOf (pos.moved front) cuts = (itemsOf pos cuts).map (Item.mapPos (Pos.moved front)) := by
  induction cuts generalizing pos with
  | nil => rfl
  | cons cut cuts ih =>
      have hitem : cut.item (pos.moved front) = (cut.item pos).mapPos (Pos.moved front) := by
        rw [Cut.item, Cut.item, ← Pos.moved_advanceAll front h]
        exact classify_mapPos (Pos.moved front) _ _ _
      rw [itemsOf, itemsOf, List.map_cons, hitem, ← Pos.moved_advanceAll front h,
        ih (Pos.line_advanceAll_pos h cut.symbols)]

/-- A source behind other bytes gives its items with their places moved. -/
theorem items_moved (front source : Bytes) :
    items ⟨Pos.start.advanceAll (Utf8.symbols front), Utf8.symbols source⟩ =
      (items (.ofBytes source)).map (Item.mapPos (Pos.moved front)) := by
  obtain ⟨cuts, trailing, hscans⟩ := exists_scans (Utf8.symbols source)
  have hstart : (1 : Int) ≤ Pos.start.line := Int.le_refl 1
  rw [Cursor.ofBytes, hscans.items_eq, hscans.items_eq, Pos.advanceAll_symbols,
    ← Pos.moved_start, itemsOf_moved front hstart]

theorem items_append_encode (a b : Bytes) {c : Char} {cs : List Char}
    (hspace : ∀ d ∈ c :: cs, isSpace d = true) :
    items (.ofBytes (a ++ Utf8.encode (c :: cs) ++ b)) = items (.ofBytes a) ++
      (items (.ofBytes b)).map (Item.mapPos (Pos.moved (a ++ Utf8.encode (c :: cs)))) := by
  have hblank : ∀ s ∈ (c :: cs).map Symbol.char, isBlank s = true := by
    intro s hs
    obtain ⟨d, hd, rfl⟩ := List.mem_map.1 hs
    exact hspace d hd
  have hhead : ∀ s ∈ ((c :: cs).map Symbol.char ++ Utf8.symbols b).head?, isBlank s = true := by
    intro s hs
    obtain rfl : Symbol.char c = s := by simpa using hs
    exact hblank _ (by simp)
  have hsource : Utf8.symbols (a ++ Utf8.encode (c :: cs) ++ b) =
      Utf8.symbols a ++ ((c :: cs).map Symbol.char ++ Utf8.symbols b) := by
    rw [List.append_assoc, Utf8.encode_cons, List.append_assoc,
      Utf8.symbols_append_utf8EncodeChar, Utf8.symbols_encode_append, List.map_cons,
      List.cons_append]
  obtain ⟨cuts, trailing, hscans⟩ := exists_scans (Utf8.symbols a)
  calc items (.ofBytes (a ++ Utf8.encode (c :: cs) ++ b))
      = items ⟨.start, Utf8.symbols a ++ ((c :: cs).map Symbol.char ++ Utf8.symbols b)⟩ := by
        rw [Cursor.ofBytes, hsource]
    _ = items (.ofBytes a) ++ items ⟨Pos.start.advanceAll (Utf8.symbols a),
          (c :: cs).map Symbol.char ++ Utf8.symbols b⟩ := by
        rw [hscans.items_append hhead, Cursor.ofBytes, hscans.items_eq]
    _ = items (.ofBytes a) ++ items ⟨Pos.start.advanceAll
          (Utf8.symbols (a ++ Utf8.encode (c :: cs))), Utf8.symbols b⟩ := by
        rw [items_blanks_append _ hblank, ← advanceAll_append, Utf8.symbols_append_encode]
    _ = _ := by rw [items_moved]

/-- White space cuts a source in two that do not know of each other: the items are those of
the part in front, and then those of the part behind with their places moved.  Which white
space it is makes no difference but to the places. -/
theorem items_append_whiteSpace {a w b : Bytes} (hspace : WhiteSpace w) (hne : w ≠ []) :
    items (.ofBytes (a ++ w ++ b)) = items (.ofBytes a) ++
      (items (.ofBytes b)).map (Item.mapPos (Pos.moved (a ++ w))) ∧
    ∀ v, WhiteSpace v → v ≠ [] →
      (items (.ofBytes (a ++ v ++ b))).map Item.unplaced =
        (items (.ofBytes (a ++ w ++ b))).map Item.unplaced := by
  have hcut : ∀ v, WhiteSpace v → v ≠ [] → items (.ofBytes (a ++ v ++ b)) =
      items (.ofBytes a) ++ (items (.ofBytes b)).map (Item.mapPos (Pos.moved (a ++ v))) := by
    rintro v ⟨cs, hcs, rfl⟩ hv
    cases cs with
    | nil => exact absurd rfl hv
    | cons c cs => exact items_append_encode a b hcs
  refine ⟨hcut w hspace hne, fun v hv hvne => ?_⟩
  rw [hcut v hv hvne, hcut w hspace hne]
  simp only [List.map_append, List.map_map, Function.comp_def, Item.unplaced_mapPos]

/-- A character broken off, an em space, which begins with the same two bytes, and a new line
in front of a constant. -/
theorem items_append_whiteSpace_broken :
    items (.ofBytes ([0xE2, 0x80] ++ text "\u2003\n" ++ text "7;")) =
      [.error ⟨⟨0, 1, 1⟩, [0xE2, 0x80], .invalidUtf8⟩, .token ⟨.constant, [], 7, ⟨6, 2, 1⟩⟩,
        .token ⟨.semicolon, [], 0, ⟨7, 2, 2⟩⟩] := by
  have hbroken : items (.ofBytes [0xE2, 0x80]) =
      [.error ⟨⟨0, 1, 1⟩, [0xE2, 0x80], .invalidUtf8⟩] := by
    have hnext : next? (.ofBytes [0xE2, 0x80]) =
        some (.error ⟨⟨0, 1, 1⟩, [0xE2, 0x80], .invalidUtf8⟩, ⟨⟨2, 1, 3⟩, []⟩) := rfl
    rw [items_of_some hnext, items_of_none rfl]
  have htokens : items (.ofBytes (text "7;")) =
      [.token ⟨.constant, [], 7, ⟨0, 1, 1⟩⟩, .token ⟨.semicolon, [], 0, ⟨1, 1, 2⟩⟩] := by
    have hnext : next? (.ofBytes (text "7;")) =
        some (.token ⟨.constant, [], 7, ⟨0, 1, 1⟩⟩, ⟨⟨1, 1, 2⟩, [.char ';']⟩) := rfl
    have hlast : next? ⟨⟨1, 1, 2⟩, [.char ';']⟩ =
        some (.token ⟨.semicolon, [], 0, ⟨1, 1, 2⟩⟩, ⟨⟨2, 1, 3⟩, []⟩) := rfl
    rw [items_of_some hnext, items_of_some hlast, items_of_none rfl]
  have hspace : WhiteSpace (text "\u2003\n") :=
    ⟨['\u2003', '\n'], List.all_eq_true.1 rfl, rfl⟩
  have hcut := (items_append_whiteSpace (a := [0xE2, 0x80]) (b := text "7;") hspace
    (by decide)).1
  rw [hcut, hbroken, htokens]
  rfl

end Lexer
end CrossCompiler
