import CrossCompiler.Proofs.Lexer.Scan

/-!
# Places in a source

The place behind a byte string is counted on the byte string itself: its bytes, its line
feeds, and the symbols behind the last of these.  Reading symbol by symbol arrives at that
place.  A place in a source is moved by what is put in front of the source, its column only
as long as the place is on the first line; reading goes on in step with the move.
-/

namespace CrossCompiler

/-- The byte that ends a line. -/
def lineFeed : UInt8 := ascii '\n'

/-- What stands behind the last line feed. -/
def lastLine (s : Bytes) : Bytes := (s.reverse.takeWhile (· ≠ lineFeed)).reverse

theorem lastLine_of_not_mem {s : Bytes} (h : lineFeed ∉ s) : lastLine s = s := by
  have hall : ∀ b ∈ s.reverse, decide (b ≠ lineFeed) = true := by
    intro b hb
    rw [decide_eq_true_eq]
    rintro rfl
    exact h (List.mem_reverse.1 hb)
  rw [lastLine, List.takeWhile_eq_self_iff.2 hall, List.reverse_reverse]

theorem lastLine_append_of_mem {t : Bytes} (h : lineFeed ∈ t) (s : Bytes) :
    lastLine (s ++ t) = lastLine t := by
  have hstops : ¬ ∀ b ∈ t.reverse, decide (b ≠ lineFeed) = true := by
    intro hall
    have hne := hall lineFeed (List.mem_reverse.2 h)
    simp at hne
  have hshort : (t.reverse.takeWhile (· ≠ lineFeed)).length ≠ t.reverse.length := by
    intro hlength
    have hfront := List.takeWhile_prefix (l := t.reverse) (· ≠ lineFeed)
    exact hstops (List.takeWhile_eq_self_iff.1 (hfront.eq_of_length hlength))
  rw [lastLine, List.reverse_append, List.takeWhile_append, if_neg hshort, lastLine]

/-- A line feed is never a part of another character. -/
theorem lineFeed_not_mem_utf8EncodeChar {c : Char} (h : c ≠ '\n') :
    lineFeed ∉ String.utf8EncodeChar c := by
  intro hmem
  have hoctets := Utf8.octets_utf8EncodeChar c
  obtain ⟨b, o, ho⟩ := List.exists_cons_of_ne_nil (String.utf8EncodeChar_ne_nil (c := c))
  rw [ho] at hmem hoctets
  rcases List.mem_cons.1 hmem with rfl | hmem
  · -- As a first byte it is the whole character.
    have hvalue : lineFeed.toNat = 10 := rfl
    have hnat : c.toNat = 10 := by
      cases hoctets <;> omega
    exact h (Char.toNat_inj.1 hnat)
  · have hcont := hoctets.isContinuation_of_mem_tail lineFeed hmem
    revert hcont
    decide

theorem ne_lineFeed_of_decode? {b : UInt8} {s : Bytes} (h : Utf8.decode? (b :: s) = none) :
    b ≠ lineFeed := by
  rintro rfl
  rw [Utf8.decode?_eq_none_iff] at h
  exact h ⟨'\n', s, rfl⟩

namespace Pos

theorem advance_lineFeed (pos : Pos) :
    pos.advance (.char '\n') = ⟨pos.offset + 1, pos.line + 1, 1⟩ := rfl

theorem advance_of_ne {s : Symbol} (h : s ≠ .char '\n') (pos : Pos) :
    pos.advance s = ⟨pos.offset + s.bytes.length, pos.line, pos.column + 1⟩ :=
  if_neg h

theorem advanceAll_cons (pos : Pos) (a : Symbol) (s : List Symbol) :
    pos.advanceAll (a :: s) = (pos.advance a).advanceAll s := rfl

/-- The place behind a byte string that begins at `pos`. -/
def behind (pos : Pos) (s : Bytes) : Pos where
  offset := pos.offset + s.length
  line := pos.line + s.count lineFeed
  column := if lineFeed ∈ s then 1 + (Utf8.symbols (lastLine s)).length
    else pos.column + (Utf8.symbols s).length

theorem behind_lineFeed_cons (pos : Pos) (s : Bytes) :
    pos.behind (lineFeed :: s) = (pos.advance (.char '\n')).behind s := by
  have hlast : lastLine (lineFeed :: s) = lastLine s := by
    by_cases hs : lineFeed ∈ s
    · exact lastLine_append_of_mem hs [lineFeed]
    · rw [lastLine_of_not_mem hs, lastLine, List.reverse_cons, List.takeWhile_append_of_pos]
      · simp
      · intro b hb
        rw [decide_eq_true_eq]
        rintro rfl
        exact hs (List.mem_reverse.1 hb)
  rw [advance_lineFeed, behind, behind, Pos.mk.injEq, hlast, if_pos List.mem_cons_self,
    List.length_cons, List.count_cons_self]
  refine ⟨by push_cast; omega, by push_cast; omega, ?_⟩
  by_cases hs : lineFeed ∈ s
  · rw [if_pos hs]
  · rw [if_neg hs, lastLine_of_not_mem hs]

/-- A symbol without a line feed moves the column by one. -/
theorem behind_append_symbol {a : Symbol} {s : Bytes} (hplain : lineFeed ∉ a.bytes)
    (hread : Utf8.symbols (a.bytes ++ s) = a :: Utf8.symbols s) (pos : Pos) :
    pos.behind (a.bytes ++ s) = (pos.advance a).behind s := by
  have hne : a ≠ .char '\n' := by
    rintro rfl
    exact hplain (by decide)
  have hmem : lineFeed ∈ a.bytes ++ s ↔ lineFeed ∈ s := by simp [hplain]
  rw [advance_of_ne hne, behind, behind, Pos.mk.injEq, List.length_append, List.count_append,
    List.count_eq_zero_of_not_mem hplain]
  refine ⟨by push_cast; omega, by push_cast; omega, ?_⟩
  by_cases hs : lineFeed ∈ s
  · rw [if_pos (hmem.2 hs), if_pos hs, lastLine_append_of_mem hs]
  · rw [if_neg (mt hmem.1 hs), if_neg hs, hread, List.length_cons]
    push_cast
    omega

/-- Reading a byte string leads to the place behind it. -/
theorem advanceAll_symbols (pos : Pos) (s : Bytes) :
    pos.advanceAll (Utf8.symbols s) = pos.behind s := by
  induction s using Utf8.symbolInduction generalizing pos with
  | nil => simp [behind, advanceAll]
  | char c s ih =>
      have hread := Utf8.symbols_utf8EncodeChar_append c s
      rw [hread, advanceAll_cons, ih]
      by_cases hc : c = '\n'
      · subst hc
        exact (behind_lineFeed_cons pos s).symm
      · have hplain : lineFeed ∉ (Symbol.char c).bytes := lineFeed_not_mem_utf8EncodeChar hc
        exact (behind_append_symbol hplain hread pos).symm
  | stray b s h ih =>
      have hread := Utf8.symbols_cons_stray h
      rw [hread, advanceAll_cons, ih]
      have hplain : lineFeed ∉ (Symbol.stray b).bytes := by
        simpa [Symbol.bytes] using (ne_lineFeed_of_decode? h).symm
      exact (behind_append_symbol hplain hread pos).symm

/-- A place in a source once a byte string is put in front of the source.  Only on the first
line does the column change. -/
def moved (front : Bytes) (pos : Pos) : Pos where
  offset := pos.offset + front.length
  line := pos.line + front.count lineFeed
  column := if pos.line = 1 then pos.column + (Utf8.symbols (lastLine front)).length
    else pos.column

theorem moved_start (front : Bytes) : start.moved front = start.behind front := by
  rw [moved, behind, Pos.mk.injEq]
  refine ⟨rfl, rfl, ?_⟩
  by_cases hfront : lineFeed ∈ front
  · rw [if_pos hfront]
    rfl
  · rw [if_neg hfront, lastLine_of_not_mem hfront]
    rfl

theorem line_advance_pos {pos : Pos} (h : 1 ≤ pos.line) (s : Symbol) :
    1 ≤ (pos.advance s).line := by
  unfold advance
  split
  · exact Int.le_add_one h
  · exact h

/-- Reading a symbol and moving the place can be done in either order. -/
theorem moved_advance (front : Bytes) {pos : Pos} (h : 1 ≤ pos.line) (s : Symbol) :
    (pos.advance s).moved front = (pos.moved front).advance s := by
  by_cases hs : s = .char '\n'
  · subst hs
    have hlater : ¬ pos.line + 1 = 1 := by omega
    simp only [advance_lineFeed, moved, Pos.mk.injEq]
    exact ⟨by omega, by omega, if_neg hlater⟩
  · simp only [advance_of_ne hs, moved, Pos.mk.injEq, true_and]
    refine ⟨by omega, ?_⟩
    split
    · omega
    · rfl

theorem moved_advanceAll (front : Bytes) {pos : Pos} (h : 1 ≤ pos.line) (s : List Symbol) :
    (pos.advanceAll s).moved front = (pos.moved front).advanceAll s := by
  induction s generalizing pos with
  | nil => rfl
  | cons a s ih =>
      rw [advanceAll_cons, advanceAll_cons, ih (line_advance_pos h a), moved_advance front h]

theorem line_advanceAll_pos {pos : Pos} (h : 1 ≤ pos.line) (s : List Symbol) :
    1 ≤ (pos.advanceAll s).line := by
  induction s generalizing pos with
  | nil => exact h
  | cons a s ih => exact ih (line_advance_pos h a)

end Pos
end CrossCompiler
