import CrossCompiler.Lexer
import CrossCompiler.Proofs.Utf8

/-!
# How a source is cut into lexemes

The reading of a source is described without a cursor: `Scans` relates the symbols of a
source to its cuts, each made of the white space passed over and one lexeme, and to the
white space at the end.  A lexeme is followed by no symbol that could continue it.  Every
list of symbols has such cuts, and the items of a source are those of its cuts, one by one.
What a lexeme gives as a token or an error is not looked at here.
-/

namespace CrossCompiler
namespace Lexer

/-- A lexeme with the white space in front of it. -/
structure Cut where
  blanks : List Symbol
  first : Symbol
  tail : List Symbol
  blank : ∀ s ∈ blanks, isBlank s = true
  visible : isBlank first = false
  joined : ∀ s ∈ tail, continues first s = true

namespace Cut

/-- The symbols of the lexeme. -/
def lexeme (cut : Cut) : List Symbol := cut.first :: cut.tail

/-- The symbols of the white space and of the lexeme. -/
def symbols (cut : Cut) : List Symbol := cut.blanks ++ cut.lexeme

/-- What the lexeme gives, if its white space begins at `pos`. -/
def item (cut : Cut) (pos : Pos) : Item :=
  classify (pos.advanceAll cut.blanks) cut.first cut.tail

theorem length_symbols_pos (cut : Cut) : 0 < cut.symbols.length := by
  simp [symbols, lexeme]

end Cut

/-- The items of cuts that stand one behind the other from `pos` on. -/
def itemsOf (pos : Pos) : List Cut → List Item
  | [] => []
  | cut :: cuts => cut.item pos :: itemsOf (pos.advanceAll cut.symbols) cuts

@[simp]
theorem length_itemsOf (pos : Pos) (cuts : List Cut) :
    (itemsOf pos cuts).length = cuts.length := by
  induction cuts generalizing pos with
  | nil => rfl
  | cons cut cuts ih => simp [itemsOf, ih]

theorem advanceAll_append (pos : Pos) (s t : List Symbol) :
    pos.advanceAll (s ++ t) = (pos.advanceAll s).advanceAll t :=
  List.foldl_append

/-- An item stands behind the symbols of all the cuts before it. -/
theorem getElem?_itemsOf (pos : Pos) (cuts : List Cut) (k : Nat) :
    (itemsOf pos cuts)[k]? =
      cuts[k]?.map fun cut => cut.item (pos.advanceAll ((cuts.take k).flatMap Cut.symbols)) := by
  induction cuts generalizing pos k with
  | nil => rfl
  | cons next cuts ih =>
      cases k with
      | zero => rfl
      | succ k =>
          simp only [itemsOf, List.getElem?_cons_succ, ih, List.take_succ_cons,
            List.flatMap_cons, advanceAll_append]

/-- The cuts of some symbols, and the white space behind the last of them.  Behind each cut
stands nothing that would continue its lexeme. -/
inductive Scans : List Symbol → List Cut → List Symbol → Prop
  | done {trailing : List Symbol} (blank : ∀ s ∈ trailing, isBlank s = true) :
      Scans trailing [] trailing
  | cut (cut : Cut) {rest : List Symbol} {cuts : List Cut} {trailing : List Symbol}
      (ends : ∀ s ∈ rest.head?, continues cut.first s = false)
      (scans : Scans rest cuts trailing) : Scans (cut.symbols ++ rest) (cut :: cuts) trailing

theorem skipBlanks_append (pos : Pos) {blanks rest : List Symbol}
    (blank : ∀ s ∈ blanks, isBlank s = true) (ends : ∀ s ∈ rest.head?, isBlank s = false) :
    Cursor.skipBlanks ⟨pos, blanks ++ rest⟩ = ⟨pos.advanceAll blanks, rest⟩ := by
  rw [Cursor.skipBlanks]
  simp only [takeWhile_append_eq blank ends, dropWhile_append_eq blank ends]

/-- In front of white space only, nothing is left to read. -/
theorem next?_of_blank (pos : Pos) {trailing : List Symbol}
    (blank : ∀ s ∈ trailing, isBlank s = true) : next? ⟨pos, trailing⟩ = none := by
  have hskip : Cursor.skipBlanks ⟨pos, trailing ++ []⟩ = ⟨pos.advanceAll trailing, []⟩ :=
    skipBlanks_append pos blank (by simp)
  rw [List.append_nil] at hskip
  rw [next?, hskip]

/-- One step reads one cut. -/
theorem next?_of_cut (pos : Pos) (cut : Cut) {rest : List Symbol}
    (ends : ∀ s ∈ rest.head?, continues cut.first s = false) :
    next? ⟨pos, cut.symbols ++ rest⟩ =
      some (cut.item pos, ⟨pos.advanceAll cut.symbols, rest⟩) := by
  have hfirst : ∀ s ∈ (cut.lexeme ++ rest).head?, isBlank s = false := by
    intro s hs
    obtain rfl : cut.first = s := by simpa [Cut.lexeme] using hs
    exact cut.visible
  rw [next?, Cut.symbols, List.append_assoc, skipBlanks_append pos cut.blank hfirst]
  simp only [Cut.lexeme, List.cons_append, takeWhile_append_eq cut.joined ends,
    dropWhile_append_eq cut.joined ends, advanceAll_append, Cut.item]

/-- Every list of symbols can be cut up. -/
theorem exists_scans (s : List Symbol) : ∃ cuts trailing, Scans s cuts trailing := by
  -- A cut takes off a whole run of symbols, so the induction is on their number.
  induction hn : s.length using Nat.strong_induction_on generalizing s with
  | _ n ih =>
      have hsplit := List.takeWhile_append_dropWhile (p := isBlank) (l := s)
      have hblank : ∀ a ∈ s.takeWhile isBlank, isBlank a = true :=
        fun a ha => List.mem_takeWhile_imp ha
      cases hrest : s.dropWhile isBlank with
      | nil =>
          rw [hrest, List.append_nil] at hsplit
          rw [hsplit] at hblank
          exact ⟨[], s, .done hblank⟩
      | cons first rest =>
          have hvisible : isBlank first = false :=
            head?_dropWhile_eq_false (l := s) first (by rw [hrest]; rfl)
          let cut : Cut := ⟨s.takeWhile isBlank, first, rest.takeWhile (continues first),
            hblank, hvisible, fun a ha => List.mem_takeWhile_imp ha⟩
          have hwhole : cut.symbols ++ rest.dropWhile (continues first) = s := by
            simp only [cut, Cut.symbols, Cut.lexeme, List.append_assoc, List.cons_append,
              List.takeWhile_append_dropWhile]
            rw [← hrest, hsplit]
          have hshorter : (rest.dropWhile (continues first)).length < n := by
            have hpos := cut.length_symbols_pos
            rw [← hn, ← hwhole, List.length_append]
            omega
          obtain ⟨cuts, trailing, hscans⟩ := ih _ hshorter _ rfl
          exact ⟨cut :: cuts, trailing, hwhole ▸ .cut cut head?_dropWhile_eq_false hscans⟩

theorem items_of_none {c : Cursor} (h : next? c = none) : items c = [] := by
  rw [items]
  split
  · rfl
  · next heq => simp [h] at heq

theorem items_of_some {c d : Cursor} {item : Item} (h : next? c = some (item, d)) :
    items c = item :: items d := by
  rw [items]
  split
  · next heq => simp [h] at heq
  · next heq =>
    rw [h] at heq
    obtain ⟨rfl, rfl⟩ := Prod.mk.inj (Option.some.inj heq)
    rfl

namespace Scans

variable {s trailing : List Symbol} {cuts : List Cut}

/-- The items of a source are those of its cuts. -/
theorem items_eq (h : Scans s cuts trailing) (pos : Pos) :
    items ⟨pos, s⟩ = itemsOf pos cuts := by
  induction h generalizing pos with
  | done blank => exact items_of_none (next?_of_blank pos blank)
  | cut cut ends _ ih => rw [items_of_some (next?_of_cut pos cut ends), ih, itemsOf]

/-- Asking again and again gives the items of the cuts, and then the end each time. -/
theorem requests_eq (h : Scans s cuts trailing) (pos : Pos) (later : Nat) :
    requests (cuts.length + later) ⟨pos, s⟩ =
      (itemsOf pos cuts).map some ++ List.replicate later none := by
  induction h generalizing pos with
  | @done trailing blank =>
      -- The end leaves the cursor where it is, so every later request meets it again.
      have hnext := next?_of_blank pos blank
      induction later with
      | zero => rfl
      | succ later ih =>
          simp only [List.length_nil, Nat.zero_add, itemsOf, List.map_nil, List.nil_append]
            at ih ⊢
          rw [requests, hnext]
          simp only [ih, List.replicate_succ]
  | cut cut ends _ ih =>
      rw [List.length_cons, Nat.add_right_comm, requests, next?_of_cut pos cut ends]
      simp only [ih, itemsOf, List.map_cons, List.cons_append]

/-- The symbols of the cuts and the white space at the end are the symbols read. -/
theorem flatMap_symbols (h : Scans s cuts trailing) : cuts.flatMap Cut.symbols ++ trailing = s := by
  induction h with
  | done => rfl
  | cut cut _ _ ih => rw [List.flatMap_cons, List.append_assoc, ih]

theorem trailing_blank (h : Scans s cuts trailing) : ∀ a ∈ trailing, isBlank a = true := by
  induction h with
  | done blank => exact blank
  | cut _ _ _ ih => exact ih

/-- Where two lexemes touch, the second does not continue the first. -/
theorem isChain (h : Scans s cuts trailing) :
    cuts.IsChain fun a b => b.blanks = [] → continues a.first b.first = false := by
  induction h with
  | done => exact .nil
  | cut cut ends scans ih =>
      cases scans with
      | done => exact .singleton _
      | cut next _ _ =>
          refine .cons_cons (fun hblanks => ends next.first ?_) ih
          simp [Cut.symbols, Cut.lexeme, hblanks]

end Scans

/-- A request is answered with an item of the source. -/
theorem mem_items_of_mem_requests {n : Nat} {c : Cursor} {item : Item}
    (h : some item ∈ requests n c) : item ∈ items c := by
  induction n generalizing c with
  | zero => cases h
  | succ n ih =>
      cases hnext : next? c with
      | none =>
          rw [requests, hnext] at h
          exact ih (List.mem_of_ne_of_mem (Option.some_ne_none item) h)
      | some found =>
          rw [requests, hnext] at h
          rw [items_of_some hnext]
          rcases List.mem_cons.1 h with heq | hlater
          · rw [Option.some.inj heq]
            exact List.mem_cons_self
          · exact List.mem_cons_of_mem _ (ih hlater)

end Lexer
end CrossCompiler
