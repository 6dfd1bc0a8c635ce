import CrossCompiler.Proofs.Lexer.Errors

/-!
# What a repair replaces

What a tool wrote is repaired before it is reported.  `Repairs` says on bytes what a repair is:
characters are kept, and each stretch of bytes that are no characters, as long as it can be, gives
way to one replacement character.  There is only one such repair of a byte string, the one that is
made, and the stretches that it replaces are those of which the scanner says that they are not
valid UTF-8.
-/

namespace CrossCompiler

open Lexer

/-!
## Runs of stray bytes
-/

namespace Symbol

theorem mendRuns_map_char_append (cs : List Char) (rest : List Symbol) :
    mendRuns false (cs.map Symbol.char ++ rest) = cs ++ mendRuns false rest := by
  induction cs with
  | nil => rfl
  | cons c cs ih => rw [List.map_cons, List.cons_append, mendRuns, ih, List.cons_append]

theorem mendRuns_map_char (cs : List Char) : mendRuns false (cs.map Symbol.char) = cs := by
  simpa [mendRuns] using mendRuns_map_char_append cs []

/-- A run is replaced once, where it begins. -/
theorem mendRuns_map_stray_append {bs : Bytes} {rest : List Symbol} (hbs : bs ≠ [])
    (hrest : ∀ a ∈ rest.head?, a.isStray = false) :
    mendRuns false (bs.map Symbol.stray ++ rest) = replacement :: mendRuns false rest := by
  have hmended (bs : Bytes) :
      mendRuns true (bs.map Symbol.stray ++ rest) = mendRuns false rest := by
    induction bs with
    | nil =>
        cases rest with
        | nil => rfl
        | cons a rest =>
            cases a with
            | char c => rfl
            | stray b => cases hrest _ rfl
    | cons b bs ih => rw [List.map_cons, List.cons_append, mendRuns, ih]
  obtain ⟨b, bs, rfl⟩ := List.exists_cons_of_ne_nil hbs
  rw [List.map_cons, List.cons_append, mendRuns, hmended]

end Symbol

/-!
## The repair of a byte string
-/

namespace Utf8

theorem isValid_repair (s : Bytes) : isValid (repair s) = true := isValid_encode _

theorem repair_eq_self {s : Bytes} (h : isValid s = true) : repair s = s := by
  obtain ⟨cs, rfl⟩ := isValid_iff.1 h
  rw [repair, symbols_encode, Symbol.mendRuns_map_char]

/-- Behind `before`, the first byte string is repaired to the second, with one replacement
character in the place of each of the stretches.  A stretch goes from one character or end of the
whole to the next, and no character begins in it. -/
inductive Repairs : (before : Bytes) → Bytes → Bytes → (stretches : List Bytes) → Prop
  | nil {before : Bytes} : Repairs before [] [] []
  | char {before s t : Bytes} {stretches : List Bytes} (c : Char)
      (h : Repairs (before ++ String.utf8EncodeChar c) s t stretches) :
      Repairs before (String.utf8EncodeChar c ++ s) (String.utf8EncodeChar c ++ t) stretches
  | broken {before stretch s t : Bytes} {stretches : List Bytes}
      (run : BrokenBytes before stretch s) (h : Repairs (before ++ stretch) s t stretches) :
      Repairs before (stretch ++ s) (String.utf8EncodeChar replacement ++ t) (stretch :: stretches)

namespace Repairs

variable {before s t t' : Bytes} {stretches stretches' : List Bytes}

theorem encode_append {cs : List Char} (h : Repairs (before ++ encode cs) s t stretches) :
    Repairs before (encode cs ++ s) (encode cs ++ t) stretches := by
  induction cs generalizing before with
  | nil => simpa [encode] using h
  | cons c cs ih =>
      rw [encode_cons, ← List.append_assoc] at h
      rw [encode_cons, List.append_assoc, List.append_assoc]
      exact .char c (ih h)

/-- What is made of symbols in front of which there are characters. -/
theorem map_char_append {front rest : List Symbol} {cs : List Char}
    (h : Repairs ((front ++ cs.map Symbol.char).flatMap Symbol.bytes) (rest.flatMap Symbol.bytes)
      (encode (Symbol.mendRuns false rest)) stretches) :
    Repairs (front.flatMap Symbol.bytes) ((cs.map Symbol.char ++ rest).flatMap Symbol.bytes)
      (encode (Symbol.mendRuns false (cs.map Symbol.char ++ rest))) stretches := by
  rw [List.flatMap_append, flatMap_bytes_map_char] at h
  rw [Symbol.mendRuns_map_char_append, Utf8.encode_append, List.flatMap_append,
    flatMap_bytes_map_char]
  exact h.encode_append

/-- What is made of symbols in front of which there is a run of stray bytes. -/
theorem map_stray_append {source bs : Bytes} {front rest : List Symbol}
    (hread : symbols source = front ++ (bs.map Symbol.stray ++ rest)) (hbs : bs ≠ [])
    (hfront : ∀ a ∈ front.getLast?, a.isStray = false)
    (hrest : ∀ a ∈ rest.head?, a.isStray = false)
    (h : Repairs ((front ++ bs.map Symbol.stray).flatMap Symbol.bytes) (rest.flatMap Symbol.bytes)
      (encode (Symbol.mendRuns false rest)) stretches) :
    Repairs (front.flatMap Symbol.bytes) ((bs.map Symbol.stray ++ rest).flatMap Symbol.bytes)
      (encode (Symbol.mendRuns false (bs.map Symbol.stray ++ rest))) (bs :: stretches) := by
  have hrun := brokenBytes_of_symbols hread hbs hfront hrest
  rw [List.flatMap_append, flatMap_bytes_map_stray] at h
  rw [Symbol.mendRuns_map_stray_append hbs hrest, encode_cons, List.flatMap_append,
    flatMap_bytes_map_stray]
  exact .broken hrun h

/-- There is only one way to repair a byte string: what stands in front is a character or not, and
a stretch that begins there cannot end in two places. -/
theorem unique (h : Repairs before s t stretches) (h' : Repairs before s t' stretches') :
    t = t' ∧ stretches = stretches' := by
  induction h generalizing t' stretches' with
  | nil =>
      generalize hs : ([] : Bytes) = s at h'
      cases h' with
      | nil => exact ⟨rfl, rfl⟩
      | char c => exact absurd (List.append_eq_nil_iff.1 hs.symm).1 String.utf8EncodeChar_ne_nil
      | broken run => exact absurd (List.append_eq_nil_iff.1 hs.symm).1 run.nonempty
  | @char _ s _ _ c _ ih =>
      generalize hu : String.utf8EncodeChar c ++ s = u at h'
      cases h' with
      | nil => exact absurd (List.append_eq_nil_iff.1 hu).1 String.utf8EncodeChar_ne_nil
      | char d h' =>
          obtain ⟨rfl, rfl⟩ := utf8EncodeChar_append_inj hu
          obtain ⟨rfl, rfl⟩ := ih h'
          exact ⟨rfl, rfl⟩
      | broken run => exact absurd ⟨c, s, hu.symm⟩ run.not_beginsChar
  | @broken _ stretch s _ _ run _ ih =>
      generalize hu : stretch ++ s = u at h'
      cases h' with
      | nil => exact absurd (List.append_eq_nil_iff.1 hu).1 run.nonempty
      | char d => exact absurd ⟨d, _, hu⟩ run.not_beginsChar
      | broken run' h' =>
          obtain ⟨rfl, rfl⟩ := run.unique run' hu
          obtain ⟨rfl, rfl⟩ := ih h'
          exact ⟨rfl, rfl⟩

end Repairs

end Utf8

/-!
## What the scanner says about it
-/

namespace Lexer

/-- The errors that a source is reported to have; none if it gives tokens. -/
def reported (source : Bytes) : List Error :=
  match tokenize source with
  | .ok _ => []
  | .error errors => errors

/-- The errors of bytes that are no characters. -/
def invalidUtf8 (errors : List Error) : List Error :=
  errors.filter fun e => e.problem.message = text "invalid UTF-8"

theorem reported_eq (source : Bytes) : reported source = errorsOf (items (.ofBytes source)) := by
  rw [reported, tokenize]
  cases errorsOf (items (.ofBytes source)) <;> rfl

/-- A lexeme of stray bytes is an error of this sort. -/
theorem invalidUtf8_errorsOf_stray (pos : Pos) (b : UInt8) (tail : List Symbol)
    (found : List Item) :
    (invalidUtf8 (errorsOf (classify pos (.stray b) tail :: found))).map Error.text =
      (Symbol.stray b :: tail).flatMap Symbol.bytes ::
        (invalidUtf8 (errorsOf found)).map Error.text :=
  rfl

/-- A lexeme that begins with a character is not, whatever else is wrong with it. -/
theorem invalidUtf8_errorsOf_char (pos : Pos) (c : Char) (tail : List Symbol)
    (found : List Item) :
    invalidUtf8 (errorsOf (classify pos (.char c) tail :: found)) =
      invalidUtf8 (errorsOf found) := by
  unfold classify
  dsimp only
  split
  · rfl
  · split_ifs <;> rfl

/-- A lexeme that begins with a character has no stray bytes in it. -/
theorem Cut.symbols_of_char (cut : Cut) {c : Char} (hfirst : cut.first = .char c) :
    ∃ cs : List Char, cs ≠ [] ∧ cut.symbols = cs.map Symbol.char := by
  have hjoined := cut.joined
  rw [hfirst] at hjoined
  obtain ⟨blanks, hblanks, -⟩ := exists_chars_of_blank cut.blank
  obtain ⟨ds, hds, -⟩ := exists_chars_of_continues hjoined
  refine ⟨blanks ++ c :: ds, by simp, ?_⟩
  rw [symbols, lexeme, hblanks, hfirst, hds, List.map_append, List.map_cons]

/-- A lexeme that begins with a stray byte has no characters in it. -/
theorem Cut.symbols_of_stray (cut : Cut) {b : UInt8} (hfirst : cut.first = .stray b) :
    ∃ (blanks : List Char) (bs : Bytes), cut.tail = bs.map Symbol.stray ∧
      cut.symbols = blanks.map Symbol.char ++ (b :: bs).map Symbol.stray := by
  have hjoined := cut.joined
  rw [hfirst] at hjoined
  obtain ⟨blanks, hblanks, -⟩ := exists_chars_of_blank cut.blank
  obtain ⟨bs, hbs⟩ := exists_strays_of_continues hjoined
  refine ⟨blanks, bs, hbs, ?_⟩
  rw [symbols, lexeme, hblanks, hfirst, hbs, List.map_cons]

end Lexer

namespace Utf8

theorem isStray_getLast?_map_char {front : List Symbol} {cs : List Char}
    (h : cs = [] → ∀ a ∈ front.getLast?, a.isStray = false) :
    ∀ a ∈ (front ++ cs.map Symbol.char).getLast?, a.isStray = false := by
  rcases List.eq_nil_or_concat' cs with rfl | ⟨init, c, rfl⟩
  · simpa using h rfl
  · intro a ha
    rw [List.map_append, List.map_singleton, ← List.append_assoc, List.getLast?_concat] at ha
    obtain rfl := Option.some.inj ha
    rfl

/-- From a place on, what is made is a repair, and what it replaces are the lexemes there that are
not valid UTF-8. -/
theorem repairs_of_scans {source : Bytes} {front rest trailing : List Symbol} {cuts : List Cut}
    (h : Scans rest cuts trailing) (hread : symbols source = front ++ rest)
    (hapart : ∀ a ∈ front.getLast?, ∀ b ∈ rest.head?, a.isStray = false ∨ b.isStray = false)
    (pos : Pos) :
    Repairs (front.flatMap Symbol.bytes) (rest.flatMap Symbol.bytes)
      (encode (Symbol.mendRuns false rest))
      ((invalidUtf8 (errorsOf (itemsOf pos cuts))).map Error.text) := by
  -- The cuts are taken off in front; no run of stray bytes goes on across the place.
  induction h generalizing front pos with
  | done blank =>
      obtain ⟨cs, rfl, -⟩ := exists_chars_of_blank blank
      rw [← List.append_nil (cs.map Symbol.char)]
      exact .map_char_append .nil
  | @cut cut rest cuts trailing ends _ ih =>
      rw [← List.append_assoc] at hread
      rw [itemsOf, Cut.item]
      generalize pos.advanceAll cut.symbols = next
      cases hfirst : cut.first with
      | char c =>
          obtain ⟨cs, hcs, hsymbols⟩ := cut.symbols_of_char hfirst
          rw [hsymbols] at hread ⊢
          have hlast : ∀ a ∈ (front ++ cs.map Symbol.char).getLast?, a.isStray = false :=
            isStray_getLast?_map_char fun hnil => absurd hnil hcs
          rw [invalidUtf8_errorsOf_char]
          exact .map_char_append (ih hread (fun a ha _ _ => .inl (hlast a ha)) next)
      | stray b =>
          rw [hfirst] at ends
          obtain ⟨blanks, bs, htail, hsymbols⟩ := cut.symbols_of_stray hfirst
          have hlast : ∀ a ∈ (front ++ blanks.map Symbol.char).getLast?, a.isStray = false := by
            refine isStray_getLast?_map_char fun hnil a ha => ?_
            refine (hapart a ha (.stray b) ?_).resolve_right Bool.true_eq_false_eq_False
            rw [hsymbols, hnil]
            rfl
          have hrest := ih hread (fun _ _ a ha => .inr (ends a ha)) next
          rw [hsymbols, ← List.append_assoc] at hread hrest
          rw [List.append_assoc] at hread
          rw [invalidUtf8_errorsOf_stray, htail, ← List.map_cons, flatMap_bytes_map_stray,
            hsymbols, List.append_assoc]
          exact .map_char_append
            (.map_stray_append hread (List.cons_ne_nil b bs) hlast ends hrest)

/-- A repaired byte string is valid, and what is valid is not changed.  The repair, and nothing
else, is the byte string with one replacement character for each stretch of bytes that are no
characters.  The stretches are, in their order, the texts of the errors of this sort that are
reported, so there are as many of them. -/
theorem repair_replaces_reported (s : Bytes) :
    isValid (repair s) = true ∧ (isValid s = true → repair s = s) ∧
    repair (repair s) = repair s ∧
    ∃ stretches, (∀ t others, Repairs [] s t others ↔ t = repair s ∧ others = stretches) ∧
      stretches = (invalidUtf8 (reported s)).map Error.text ∧
      stretches.length = (invalidUtf8 (reported s)).length := by
  have hrepairs : Repairs [] s (repair s) ((invalidUtf8 (reported s)).map Error.text) := by
    obtain ⟨cuts, trailing, hscans⟩ := exists_scans (symbols s)
    have h := repairs_of_scans hscans (List.nil_append _).symm (by simp) .start
    rw [flatMap_bytes_symbols] at h
    rw [reported_eq, Cursor.ofBytes, hscans.items_eq]
    exact h
  refine ⟨isValid_repair s, repair_eq_self, repair_eq_self (isValid_repair s),
    _, fun t others => ⟨fun h => h.unique hrepairs, ?_⟩, rfl, List.length_map ..⟩
  rintro ⟨rfl, rfl⟩
  exact hrepairs

/-- The replacement character, written out, is kept and is no error of this sort. -/
example :
    let s := text "a" ++ [0xE2, 0x80] ++ text "\ufffd" ++ [0xFF, 0xC0]
    repair s = text "a\ufffd\ufffd\ufffd" ∧
      (invalidUtf8 (reported s)).map Error.text = [[0xE2, 0x80], [0xFF, 0xC0]] := by
  decide +kernel

end Utf8
end CrossCompiler
