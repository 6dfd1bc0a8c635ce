import CrossCompiler.Proofs.Lexer.Grammar

/-!
# The neighbours of a lexeme

A lexeme of a source is seen in its place: the symbols read before it, the lexeme and the symbols
behind it.  It is as long as it can be.  What stands in front of it is white space or the end of
a lexeme that it does not continue, and what stands behind does not continue it.  Everything the
scanner answers is made from a lexeme in such a place.
-/

namespace CrossCompiler
namespace Lexer

theorem isForeign_iff {c : Char} : isForeign c = true ↔
    c ≠ replacement ∧ isSpace c = false ∧ punctuation? c = none ∧ isWordPart c = false := by
  simp [isForeign, startsToken, and_assoc]

theorem continues_foreign {c : Char} (hmark : punctuation? c = none)
    (hpart : isWordPart c = false) (d : Char) :
    continues (.char c) (.char d) = isForeign d := by
  simp [continues, hmark, hpart]

/-- What continues a lexeme is continued by the same symbols as the first of the lexeme. -/
theorem continues_eq_of_continues {first a : Symbol} (h : continues first a = true) :
    continues a = continues first := by
  funext s
  cases first with
  | stray b =>
      cases a with
      | stray b' => rfl
      | char c => cases h
  | char f =>
      cases a with
      | stray b => cases h
      | char c =>
          cases s with
          | stray b => rfl
          | char d =>
              cases hmark : punctuation? f with
              | some kind => simp [continues_mark hmark] at h
              | none =>
                  cases hpart : isWordPart f with
                  | true =>
                      rw [continues_wordPart hpart] at h ⊢
                      exact continues_wordPart h d
                  | false =>
                      rw [continues_foreign hmark hpart] at h ⊢
                      obtain ⟨-, -, hmark', hpart'⟩ := isForeign_iff.1 h
                      exact continues_foreign hmark' hpart' d

/-- Where the lexeme of a cut stands among symbols: it does not belong to a lexeme in front of
it, and nothing behind it belongs to it. -/
structure Cut.Stands (cut : Cut) (s front rest : List Symbol) : Prop where
  whole : s = front ++ (cut.lexeme ++ rest)
  begins : ∀ a ∈ front.getLast?, isBlank a = true ∨ continues a cut.first = false
  ends : ∀ a ∈ rest.head?, continues cut.first a = false

/-- The first lexeme has white space in front of it. -/
theorem Cut.stands_first (cut : Cut) {rest : List Symbol}
    (ends : ∀ a ∈ rest.head?, continues cut.first a = false) :
    cut.Stands (cut.symbols ++ rest) cut.blanks rest where
  whole := List.append_assoc ..
  begins a ha := .inl (cut.blank a (List.mem_of_getLast? ha))
  ends := ends

theorem Cut.continues_last (cut : Cut) :
    ∀ a ∈ cut.symbols.getLast?, continues a = continues cut.first := by
  intro a ha
  rw [Cut.symbols, Cut.lexeme,
    List.getLast?_append_of_ne_nil _ (List.cons_ne_nil _ _)] at ha
  rcases List.mem_cons.1 (List.mem_of_getLast? ha) with rfl | htail
  · rfl
  · exact continues_eq_of_continues (cut.joined a htail)

/-- A later lexeme has an earlier one further in front. -/
theorem Cut.Stands.append {cut next : Cut} {s front rest : List Symbol}
    (h : next.Stands s front rest) (ends : ∀ a ∈ s.head?, continues cut.first a = false) :
    next.Stands (cut.symbols ++ s) (cut.symbols ++ front) rest where
  whole := by rw [h.whole, List.append_assoc]
  begins a ha := by
    by_cases hfront : front = []
    · -- The two lexemes touch, and the earlier one has ended.
      subst hfront
      rw [List.append_nil] at ha
      refine .inr ?_
      rw [cut.continues_last a ha]
      exact ends next.first (by rw [h.whole]; rfl)
    · rw [List.getLast?_append_of_ne_nil _ hfront] at ha
      exact h.begins a ha
  ends := h.ends

/-- Every item is that of a lexeme that stands behind the symbols read before it. -/
theorem Scans.exists_stands {s trailing : List Symbol} {cuts : List Cut}
    (h : Scans s cuts trailing) {pos : Pos} {item : Item} (hitem : item ∈ itemsOf pos cuts) :
    ∃ (cut : Cut) (front rest : List Symbol), cut.Stands s front rest ∧
      item = classify (pos.advanceAll front) cut.first cut.tail := by
  induction h generalizing pos with
  | done => cases hitem
  | cut cut ends _ ih =>
      rcases List.mem_cons.1 hitem with rfl | hlater
      · exact ⟨cut, _, _, cut.stands_first ends, rfl⟩
      · obtain ⟨next, front, rest, hstands, rfl⟩ := ih hlater
        exact ⟨next, _, rest, hstands.append ends, by rw [advanceAll_append]⟩

/-- Every answer is made from a lexeme of the source. -/
theorem exists_stands_of_request {n : Nat} {source : Bytes} {item : Item}
    (h : some item ∈ requests n (.ofBytes source)) :
    ∃ (cut : Cut) (front rest : List Symbol), cut.Stands (Utf8.symbols source) front rest ∧
      item = classify (Pos.start.advanceAll front) cut.first cut.tail := by
  obtain ⟨cuts, trailing, hscans⟩ := exists_scans (Utf8.symbols source)
  have hitem : item ∈ itemsOf .start cuts := by
    rw [← hscans.items_eq]
    exact mem_items_of_mem_requests h
  exact hscans.exists_stands hitem

/-!
## The bytes around a lexeme
-/

namespace Cut.Stands

variable {cut : Cut} {source : Bytes} {front rest : List Symbol}

/-- The source is made of the bytes in front of a lexeme, of the lexeme and behind it. -/
theorem bytes_eq (h : cut.Stands (Utf8.symbols source) front rest) :
    source = front.flatMap Symbol.bytes ++
      (cut.lexeme.flatMap Symbol.bytes ++ rest.flatMap Symbol.bytes) := by
  rw [← List.flatMap_append, ← List.flatMap_append, ← h.whole, Utf8.flatMap_bytes_symbols]

/-- What is in front of a lexeme reads by itself as it reads in the source. -/
theorem symbols_front (h : cut.Stands (Utf8.symbols source) front rest) :
    Utf8.symbols (front.flatMap Symbol.bytes) = front :=
  (Utf8.symbols_cut h.whole).1

theorem symbols_back (h : cut.Stands (Utf8.symbols source) front rest) :
    Utf8.symbols (cut.lexeme.flatMap Symbol.bytes ++ rest.flatMap Symbol.bytes) =
      cut.lexeme ++ rest := by
  rw [← List.flatMap_append]
  exact (Utf8.symbols_cut h.whole).2

theorem symbols_rest (h : cut.Stands (Utf8.symbols source) front rest) :
    Utf8.symbols (rest.flatMap Symbol.bytes) = rest :=
  (Utf8.symbols_cut h.symbols_back).2

end Cut.Stands
end Lexer
end CrossCompiler
