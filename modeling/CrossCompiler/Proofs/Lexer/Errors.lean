import CrossCompiler.Proofs.Lexer.Neighbours
import CrossCompiler.Proofs.Lexer.Tokenize

/-!
# The errors of a source

What can be wrong with a stretch of a source is said on its bytes and on the bytes around it, in
four forms.  No stretch is wrong in two of them.  Each error the scanner reports has the form its
message tells, so it reaches as far as it can: errors of the same form do not touch, except where
the replacement character, written out in the source, begins the second of them.
-/

namespace CrossCompiler

/-- A character stands at the front of the byte string. -/
def Utf8.BeginsChar (s : Bytes) : Prop := ∃ c rest, s = String.utf8EncodeChar c ++ rest

/-- A character stands at the end of the byte string. -/
def Utf8.EndsChar (s : Bytes) : Prop := ∃ front c, s = front ++ String.utf8EncodeChar c

namespace Lexer

/-- `[A-Za-z0-9_(){};]` -/
def TokenChar (c : Char) : Prop :=
  c.isAlphanum = true ∨ c ∈ ['_', '(', ')', '\x7b', '\x7d', ';']

/-- `[A-Za-z0-9_]` -/
def WordByte (b : UInt8) : Prop := LetterByte b ∨ DigitByte b

/-- What stands between the two byte strings is not a part of a longer word or numeral. -/
structure Apart (before after : Bytes) : Prop where
  front : ∀ b ∈ before.getLast?, ¬ WordByte b
  back : ∀ b ∈ after.head?, ¬ WordByte b

/-- All the bytes at which no character begins, from one character or end of the source to the
next. -/
structure BrokenBytes (before stretch after : Bytes) : Prop where
  nonempty : stretch ≠ []
  broken : ∀ x y, stretch = x ++ y → y ≠ [] → ¬ Utf8.BeginsChar (y ++ after)
  front : before = [] ∨ Utf8.EndsChar before
  back : after = [] ∨ Utf8.BeginsChar after

/-- Characters of no use, with the replacement character at most in front, up to a byte at which
no character begins, a character of use or a replacement character. -/
structure UselessChars (c : Char) (cs : List Char) (after : Bytes) : Prop where
  useless : ∀ d ∈ c :: cs, isSpace d = false ∧ ¬ TokenChar d
  whole : replacement ∉ cs
  back : ∀ d rest, after = String.utf8EncodeChar d ++ rest →
    isSpace d = true ∨ TokenChar d ∨ d = replacement

/-- A stretch of a source that is no token, in its place between what is before and after it,
and the message about it. -/
inductive Faulty (before stretch after : Bytes) : Bytes → Prop
  | invalidUtf8 (run : BrokenBytes before stretch after) :
      Faulty before stretch after (text "invalid UTF-8")
  | unrecognized {c : Char} {cs : List Char} (spelled : stretch = Utf8.encode (c :: cs))
      (run : UselessChars c cs after) : Faulty before stretch after (text "unrecognized input")
  | invalidConstant {n w : Bytes} (spelled : stretch = n ++ w) (numeral : IsNumeral n)
      (word : IsWord w) (apart : Apart before after) :
      Faulty before stretch after (text "invalid constant")
  | outOfRange (numeral : IsNumeral stretch) (large : 2 ^ 32 ≤ numeralValue stretch)
      (apart : Apart before after) : Faulty before stretch after (text "constant out of range")

/-!
## The forms exclude each other
-/

theorem isWordPart_iff_isAlphanum {c : Char} :
    isWordPart c = true ↔ c.isAlphanum = true ∨ c = '_' := by
  simp only [isWordPart_iff, isWordStart, isDigit, Char.isAlphanum, Char.isAlpha, Char.isUpper,
    Char.isLower, Char.isDigit, Char.le_def, Bool.or_eq_true, Bool.and_eq_true, decide_eq_true_eq]
  tauto

/-- The characters that tokens are made of are those a token can begin with. -/
theorem tokenChar_iff {c : Char} :
    TokenChar c ↔ isWordPart c = true ∨ punctuation? c ≠ none := by
  have hmark : punctuation? c ≠ none ↔ c ∈ ['(', ')', '\x7b', '\x7d', ';'] := by
    rw [Option.ne_none_iff_exists']
    simp [punctuation?_eq_some_iff, marks, exists_or]
  rw [hmark, isWordPart_iff_isAlphanum, TokenChar, List.mem_cons, or_assoc]

theorem isWordPart_charOfByte {b : UInt8} :
    isWordPart (Utf8.charOfByte b) = true ↔ WordByte b := by
  rw [isWordPart_iff, isWordStart_iff, isDigit_iff, Utf8.toNat_charOfByte, ← letterByte_iff,
    ← digitByte_iff, WordByte]

/-- A character that begins with a byte of words is that byte. -/
theorem eq_charOfByte {c : Char} {b : UInt8} {s t : Bytes} (hb : WordByte b)
    (h : b :: s = String.utf8EncodeChar c ++ t) : c = Utf8.charOfByte b := by
  rw [← List.singleton_append, ← Utf8.utf8EncodeChar_charOfByte (toNat_lt_of_letterByte_or hb)] at h
  exact (Utf8.utf8EncodeChar_append_inj h).1.symm

theorem beginsChar_of_wordByte {b : UInt8} (hb : WordByte b) (s : Bytes) :
    Utf8.BeginsChar (b :: s) := by
  refine ⟨Utf8.charOfByte b, s, ?_⟩
  rw [Utf8.utf8EncodeChar_charOfByte (toNat_lt_of_letterByte_or hb), List.singleton_append]

theorem not_isNumeral_append {n w : Bytes} (h : IsWord w) : ¬ IsNumeral (n ++ w) := by
  rintro ⟨-, hdigits⟩
  obtain ⟨b, rest, rfl, hb, -⟩ := h
  have hdigit := hdigits b (by simp)
  rw [letterByte_iff] at hb
  rw [digitByte_iff] at hdigit
  omega

theorem BrokenBytes.not_beginsChar {before stretch after : Bytes}
    (h : BrokenBytes before stretch after) : ¬ Utf8.BeginsChar (stretch ++ after) :=
  h.broken [] stretch rfl h.nonempty

open Classical in
/-- What is wrong with a stretch can be told from its first bytes, and from whether it has
digits only. -/
theorem Faulty.message_eq {before stretch after message : Bytes}
    (h : Faulty before stretch after message) :
    message =
      if Utf8.BeginsChar (stretch ++ after) then
        if ∃ b ∈ stretch.head?, WordByte b then
          if IsNumeral stretch then text "constant out of range" else text "invalid constant"
        else text "unrecognized input"
      else text "invalid UTF-8" := by
  -- A numeral begins with a digit, by itself and in front of a word.
  have hdigits {n : Bytes} (hn : IsNumeral n) (t : Bytes) :
      Utf8.BeginsChar (n ++ t) ∧ ∃ b ∈ (n ++ t).head?, WordByte b := by
    obtain ⟨b, rest, rfl⟩ := List.exists_cons_of_ne_nil hn.1
    have hb : WordByte b := .inr (hn.2 b List.mem_cons_self)
    exact ⟨beginsChar_of_wordByte hb _, b, rfl, hb⟩
  cases h with
  | invalidUtf8 run => rw [if_neg run.not_beginsChar]
  | @unrecognized c cs spelled run =>
      have hbegins : Utf8.BeginsChar (stretch ++ after) :=
        ⟨c, Utf8.encode cs ++ after, by rw [spelled, Utf8.encode_cons, List.append_assoc]⟩
      have huseless : ¬ ∃ b ∈ stretch.head?, WordByte b := by
        rintro ⟨b, hhead, hb⟩
        obtain ⟨s, hs⟩ := List.head?_eq_some_iff.1 hhead
        have hc := eq_charOfByte hb (hs.symm.trans spelled)
        refine (run.useless c List.mem_cons_self).2 (tokenChar_iff.2 (.inl ?_))
        rw [hc]
        exact isWordPart_charOfByte.2 hb
      rw [if_pos hbegins, if_neg huseless]
  | @invalidConstant n w spelled numeral word =>
      subst spelled
      have hbegins := (hdigits numeral (w ++ after)).1
      rw [← List.append_assoc] at hbegins
      rw [if_pos hbegins, if_pos (hdigits numeral w).2, if_neg (not_isNumeral_append word)]
  | outOfRange numeral =>
      have hword := (hdigits numeral []).2
      rw [List.append_nil] at hword
      rw [if_pos (hdigits numeral after).1, if_pos hword, if_pos numeral]

theorem Faulty.brokenBytes {before stretch after : Bytes}
    (h : Faulty before stretch after (text "invalid UTF-8")) :
    BrokenBytes before stretch after := by
  generalize hm : text "invalid UTF-8" = message at h
  cases h with
  | invalidUtf8 run => exact run
  | unrecognized | invalidConstant | outOfRange => exact absurd hm (by decide)

theorem Faulty.uselessChars {before stretch after : Bytes}
    (h : Faulty before stretch after (text "unrecognized input")) :
    ∃ c cs, stretch = Utf8.encode (c :: cs) ∧ UselessChars c cs after := by
  generalize hm : text "unrecognized input" = message at h
  cases h with
  | unrecognized spelled run => exact ⟨_, _, spelled, run⟩
  | invalidUtf8 | invalidConstant | outOfRange => exact absurd hm (by decide)

/-- Behind bytes that are no characters stands a character, so not more of them. -/
theorem BrokenBytes.not_behind {before before' stretch stretch' after : Bytes}
    (h : BrokenBytes before stretch (stretch' ++ after)) :
    ¬ BrokenBytes before' stretch' after := by
  intro h'
  rcases h.back with hnil | hbegins
  · exact h'.nonempty (List.append_eq_nil_iff.1 hnil).1
  · exact h'.not_beginsChar hbegins

/-- No bytes are left behind a stretch that would make it longer. -/
theorem BrokenBytes.eq_nil_of_append {before before' stretch more after : Bytes}
    (h : BrokenBytes before stretch (more ++ after))
    (h' : BrokenBytes before' (stretch ++ more) after) : more = [] := by
  by_contra hmore
  rcases h.back with hnil | hbegins
  · exact hmore (List.append_eq_nil_iff.1 hnil).1
  · exact h'.broken stretch more rfl hmore hbegins

theorem BrokenBytes.unique {before before' stretch stretch' after after' : Bytes}
    (h : BrokenBytes before stretch after) (h' : BrokenBytes before' stretch' after')
    (heq : stretch ++ after = stretch' ++ after') : stretch = stretch' ∧ after = after' := by
  rcases List.append_eq_append_iff.1 heq with ⟨more, rfl, rfl⟩ | ⟨more, rfl, rfl⟩
  · rw [h.eq_nil_of_append h']
    simp
  · rw [h'.eq_nil_of_append h]
    simp

/-- Behind useless characters stand more of them only from a replacement character on. -/
theorem UselessChars.eq_replacement {c d : Char} {cs ds : List Char} {after : Bytes}
    (h : UselessChars c cs (Utf8.encode (d :: ds) ++ after)) (h' : UselessChars d ds after) :
    d = replacement := by
  obtain ⟨hspace, htoken⟩ := h'.useless d List.mem_cons_self
  have hfollows : Utf8.encode (d :: ds) ++ after =
      String.utf8EncodeChar d ++ (Utf8.encode ds ++ after) := by
    rw [Utf8.encode_cons, List.append_assoc]
  rcases h.back d _ hfollows with hblank | hother | hreplacement
  · rw [hspace] at hblank
    cases hblank
  · exact absurd hother htoken
  · exact hreplacement

/-!
## The form of each error
-/

theorem head?_symbols_utf8EncodeChar_append (c : Char) (s : Bytes) :
    (Utf8.symbols (String.utf8EncodeChar c ++ s)).head? = some (.char c) := by
  rw [Utf8.symbols_utf8EncodeChar_append, List.head?_cons]

/-- Behind the symbols, a byte of words is a symbol by itself. -/
theorem getLast?_symbols_of_wordByte {s : Bytes} {b : UInt8} (hb : WordByte b)
    (h : s.getLast? = some b) :
    (Utf8.symbols s).getLast? = some (.char (Utf8.charOfByte b)) := by
  obtain ⟨front, rfl⟩ := List.getLast?_eq_some_iff.1 h
  have hchar := Utf8.utf8EncodeChar_charOfByte (toNat_lt_of_letterByte_or hb)
  rw [← hchar, ← List.append_nil (String.utf8EncodeChar _), Utf8.symbols_append_utf8EncodeChar,
    Utf8.symbols_nil, List.getLast?_concat]

theorem head?_symbols_of_wordByte {s : Bytes} {b : UInt8} (hb : WordByte b)
    (h : s.head? = some b) :
    (Utf8.symbols s).head? = some (.char (Utf8.charOfByte b)) := by
  obtain ⟨rest, rfl⟩ := List.head?_eq_some_iff.1 h
  rw [Utf8.symbols_cons_ascii (toNat_lt_of_letterByte_or hb), List.head?_cons]

theorem flatMap_bytes_map_stray (bs : Bytes) : (bs.map Symbol.stray).flatMap Symbol.bytes = bs := by
  rw [List.flatMap_map]
  exact List.flatMap_singleton' bs

theorem eq_nil_or_endsChar {front : List Symbol} (h : ∀ a ∈ front.getLast?, a.isStray = false) :
    front.flatMap Symbol.bytes = [] ∨ Utf8.EndsChar (front.flatMap Symbol.bytes) := by
  rcases List.eq_nil_or_concat' front with rfl | ⟨init, a, rfl⟩
  · exact .inl rfl
  · cases a with
    | stray b => cases h (.stray b) (List.getLast?_concat ..)
    | char c =>
        refine .inr ⟨init.flatMap Symbol.bytes, c, ?_⟩
        rw [List.flatMap_append, List.flatMap_singleton, Symbol.bytes]

theorem eq_nil_or_beginsChar {rest : List Symbol} (h : ∀ a ∈ rest.head?, a.isStray = false) :
    rest.flatMap Symbol.bytes = [] ∨ Utf8.BeginsChar (rest.flatMap Symbol.bytes) := by
  cases rest with
  | nil => exact .inl rfl
  | cons a rest =>
      cases a with
      | stray b => cases h (.stray b) rfl
      | char c => exact .inr ⟨c, _, List.flatMap_cons⟩

/-- A run of stray bytes with no other on either side of it is all the bytes there at which no
character begins. -/
theorem brokenBytes_of_symbols {source bs : Bytes} {front rest : List Symbol}
    (hread : Utf8.symbols source = front ++ (bs.map Symbol.stray ++ rest)) (hbs : bs ≠ [])
    (hfront : ∀ a ∈ front.getLast?, a.isStray = false)
    (hrest : ∀ a ∈ rest.head?, a.isStray = false) :
    BrokenBytes (front.flatMap Symbol.bytes) bs (rest.flatMap Symbol.bytes) where
  nonempty := hbs
  broken := by
    -- Each byte is a symbol, so the reading can be cut anywhere.
    rintro x y rfl hy ⟨c, t, hchar⟩
    rw [List.map_append, List.append_assoc, ← List.append_assoc] at hread
    have hcut := congrArg List.head? (Utf8.symbols_cut hread).2
    rw [List.flatMap_append, flatMap_bytes_map_stray, hchar,
      head?_symbols_utf8EncodeChar_append] at hcut
    obtain ⟨b, y, rfl⟩ := List.exists_cons_of_ne_nil hy
    cases hcut
  front := eq_nil_or_endsChar hfront
  back := eq_nil_or_beginsChar hrest

theorem exists_strays_of_continues {b : UInt8} {tail : List Symbol}
    (joined : ∀ a ∈ tail, continues (.stray b) a = true) :
    ∃ bs : Bytes, tail = bs.map Symbol.stray := by
  have hrange : tail ∈ Set.range (List.map Symbol.stray) := by
    rw [Set.range_list_map]
    intro a ha
    cases a with
    | char c => cases joined _ ha
    | stray b' => exact ⟨b', rfl⟩
  obtain ⟨bs, rfl⟩ := hrange
  exact ⟨bs, rfl⟩

namespace Cut.Stands

variable {cut : Cut} {source : Bytes} {front rest : List Symbol}

theorem brokenBytes (h : cut.Stands (Utf8.symbols source) front rest) {b : UInt8}
    (hfirst : cut.first = .stray b) :
    BrokenBytes (front.flatMap Symbol.bytes) (cut.lexeme.flatMap Symbol.bytes)
      (rest.flatMap Symbol.bytes) := by
  have hjoined := cut.joined
  have hends := h.ends
  have hread := h.whole
  rw [hfirst] at hjoined hends
  obtain ⟨bs, htail⟩ := exists_strays_of_continues hjoined
  rw [lexeme, hfirst, htail, ← List.map_cons] at hread ⊢
  rw [flatMap_bytes_map_stray]
  refine brokenBytes_of_symbols hread (List.cons_ne_nil b bs) (fun a ha => ?_) hends
  rcases h.begins a ha with hblank | hapart
  · cases a with
    | char c => rfl
    | stray b' => cases hblank
  · cases a with
    | char c => rfl
    | stray b' =>
        rw [hfirst] at hapart
        cases hapart

theorem exists_uselessChars (h : cut.Stands (Utf8.symbols source) front rest) {c : Char}
    (hfirst : cut.first = .char c) (hmark : punctuation? c = none) (hpart : isWordPart c = false) :
    ∃ cs, cut.lexeme.flatMap Symbol.bytes = Utf8.encode (c :: cs) ∧
      UselessChars c cs (rest.flatMap Symbol.bytes) := by
  have huseless {d : Char} (hm : punctuation? d = none) (hp : isWordPart d = false) :
      ¬ TokenChar d := by simp [tokenChar_iff, hm, hp]
  have hjoined := cut.joined
  rw [hfirst] at hjoined
  obtain ⟨ds, hds, hcontinues⟩ := exists_chars_of_continues hjoined
  have hforeign : ∀ d ∈ ds, isForeign d = true := by
    intro d hd
    rw [← continues_foreign hmark hpart]
    exact hcontinues d hd
  refine ⟨ds, ?_, ?_, ?_, ?_⟩
  · rw [lexeme, hfirst, hds, ← List.map_cons, Utf8.flatMap_bytes_map_char]
  · refine List.forall_mem_cons.2 ⟨⟨?_, huseless hmark hpart⟩, fun d hd => ?_⟩
    · have hvisible := cut.visible
      rwa [hfirst] at hvisible
    · obtain ⟨-, hspace, hm, hp⟩ := isForeign_iff.1 (hforeign d hd)
      exact ⟨hspace, huseless hm hp⟩
  · intro hmem
    exact (isForeign_iff.1 (hforeign _ hmem)).1 rfl
  · intro d t hrest
    have hhead : rest.head? = some (.char d) := by
      rw [← h.symbols_rest, hrest, head?_symbols_utf8EncodeChar_append]
    have hends := h.ends _ hhead
    rw [hfirst, continues_foreign hmark hpart, ← Bool.not_eq_true, isForeign_iff] at hends
    rw [tokenChar_iff]
    by_contra hnot
    simp only [not_or, Bool.not_eq_true, not_not] at hnot
    exact hends ⟨hnot.2.2, hnot.1, hnot.2.1.2, hnot.2.1.1⟩

/-- Words and numerals are not parts of longer ones. -/
theorem apart (h : cut.Stands (Utf8.symbols source) front rest) {c : Char}
    (hfirst : cut.first = .char c) (hpart : isWordPart c = true) :
    Apart (front.flatMap Symbol.bytes) (rest.flatMap Symbol.bytes) where
  front b hlast hb := by
    have hsymbol := getLast?_symbols_of_wordByte hb hlast
    rw [h.symbols_front] at hsymbol
    have hb' := isWordPart_charOfByte.2 hb
    rcases h.begins _ hsymbol with hblank | hends
    · simp [isBlank, isSpace_eq_false_of_isWordPart hb'] at hblank
    · rw [hfirst, continues_wordPart hb', hpart] at hends
      cases hends
  back b hhead hb := by
    have hsymbol := head?_symbols_of_wordByte hb hhead
    rw [h.symbols_rest] at hsymbol
    have hends := h.ends _ hsymbol
    rw [hfirst, continues_wordPart hpart, isWordPart_charOfByte.2 hb] at hends
    cases hends

end Cut.Stands

/-- A lexeme that begins with a digit and has something else in it is a numeral and a word. -/
theorem exists_numeral_word {c : Char} {ds : List Char} (hc : isDigit c = true)
    (hds : ∀ d ∈ ds, isWordPart d = true) (hnot : ¬ ds.all isDigit = true) :
    ∃ n w, Utf8.encode (c :: ds) = n ++ w ∧ IsNumeral n ∧ IsWord w := by
  have hsplit := List.takeWhile_append_dropWhile (p := isDigit) (l := ds)
  have hdigits : ∀ d ∈ ds.takeWhile isDigit, isDigit d = true :=
    fun d hd => List.mem_takeWhile_imp hd
  cases hrest : ds.dropWhile isDigit with
  | nil =>
      rw [hrest, List.append_nil] at hsplit
      rw [hsplit] at hdigits
      exact absurd (List.all_eq_true.2 hdigits) hnot
  | cons e es =>
      have hfirst : isDigit e = false :=
        head?_dropWhile_eq_false (l := ds) e (by rw [hrest]; rfl)
      rw [hrest] at hsplit
      have hword : ∀ d ∈ e :: es, isWordPart d = true := by
        intro d hd
        exact hds d (by rw [← hsplit]; exact List.mem_append_right _ hd)
      rw [List.forall_mem_cons, isWordPart_iff, hfirst] at hword
      refine ⟨Utf8.encode (c :: ds.takeWhile isDigit), Utf8.encode (e :: es), ?_, ?_, ?_⟩
      · rw [← Utf8.encode_append, List.cons_append, hsplit]
      · exact isNumeral_iff.2 ⟨c, _, rfl, List.forall_mem_cons.2 ⟨hc, hdigits⟩⟩
      · exact isWord_iff.2 ⟨e, es, rfl, by simpa using hword.1, hword.2⟩

/-- An error has the form that its message tells. -/
theorem Cut.Stands.faulty {cut : Cut} {source : Bytes} {front rest : List Symbol}
    (h : cut.Stands (Utf8.symbols source) front rest) {pos : Pos} {e : Error}
    (herror : classify pos cut.first cut.tail = .error e) :
    Faulty (front.flatMap Symbol.bytes) e.text (rest.flatMap Symbol.bytes) e.problem.message := by
  cases hfirst : cut.first with
  | stray b =>
      have hrun := h.brokenBytes hfirst
      rw [lexeme, hfirst] at hrun
      rw [hfirst] at herror
      obtain rfl := Item.error.inj herror
      exact .invalidUtf8 hrun
  | char c =>
      cases hmark : punctuation? c with
      | some kind =>
          rw [hfirst, classify_mark hmark] at herror
          cases herror
      | none =>
          cases hpart : isWordPart c with
          | false =>
              obtain ⟨cs, hspelled, hrun⟩ := h.exists_uselessChars hfirst hmark hpart
              rw [lexeme, hfirst] at hspelled
              rw [hfirst, classify_foreign hmark hpart] at herror
              obtain rfl := Item.error.inj herror
              exact .unrecognized hspelled hrun
          | true =>
              -- A lexeme with a letter in front is a word, so only one that begins with a digit
              -- can be an error.
              have hjoined := cut.joined
              rw [hfirst] at hjoined
              obtain ⟨ds, hds, hparts⟩ := exists_chars_of_joined hpart hjoined
              rw [hfirst, hds] at herror
              rcases isWordPart_iff.1 hpart with hstart | hdigit
              · rw [classify_word hstart] at herror
                cases herror
              · rw [classify_digit hdigit] at herror
                split_ifs at herror with hall hlt
                · obtain rfl := Item.error.inj herror
                  have hnumeral : IsNumeral (Utf8.encode (c :: ds)) :=
                    isNumeral_iff.2
                      ⟨c, ds, rfl, List.forall_mem_cons.2 ⟨hdigit, List.all_eq_true.1 hall⟩⟩
                  exact .outOfRange hnumeral (Nat.le_of_not_lt hlt) (h.apart hfirst hpart)
                · obtain rfl := Item.error.inj herror
                  obtain ⟨n, w, hspelled, hn, hw⟩ := exists_numeral_word hdigit hparts hall
                  exact .invalidConstant hspelled hn hw (h.apart hfirst hpart)

/-- Where an error stands in the source, and its form there. -/
theorem exists_faulty {n : Nat} {source : Bytes} {e : Error}
    (h : some (.error e) ∈ requests n (.ofBytes source)) :
    ∃ before after, source = before ++ (e.text ++ after) ∧ e.pos.offset = before.length ∧
      Faulty before e.text after e.problem.message := by
  obtain ⟨cut, front, rest, hstands, herror⟩ := exists_stands_of_request h
  have htext : e.text = cut.lexeme.flatMap Symbol.bytes := by
    have hshows := shows_classify (Pos.start.advanceAll front) cut.joined
    rw [← herror] at hshows
    exact hshows
  have hpos : e.pos = Pos.start.advanceAll front := by
    rw [← pos_classify (Pos.start.advanceAll front) cut.first cut.tail, ← herror, Item.pos]
  refine ⟨front.flatMap Symbol.bytes, rest.flatMap Symbol.bytes, ?_, ?_, hstands.faulty herror.symm⟩
  · rw [htext]
    exact hstands.bytes_eq
  · rw [hpos, offset_advanceAll, Pos.start, Int.zero_add]

/-- Two errors with nothing between them have one source around them. -/
theorem exists_faulty_of_adjacent {n : Nat} {source : Bytes} {e e' : Error}
    (h : some (.error e) ∈ requests n (.ofBytes source))
    (h' : some (.error e') ∈ requests n (.ofBytes source))
    (adjacent : e'.pos.offset = e.pos.offset + e.text.length) :
    ∃ before after, Faulty before e.text (e'.text ++ after) e.problem.message ∧
      Faulty (before ++ e.text) e'.text after e'.problem.message := by
  obtain ⟨before, after, hsource, hoffset, hfaulty⟩ := exists_faulty h
  obtain ⟨before', after', hsource', hoffset', hfaulty'⟩ := exists_faulty h'
  have hlength : (before ++ e.text).length = before'.length := by
    rw [List.length_append]
    omega
  rw [hsource, ← List.append_assoc] at hsource'
  obtain ⟨rfl, rfl⟩ := List.append_inj hsource' hlength
  exact ⟨before, after', hfaulty, hfaulty'⟩

/-- Each error of a source is wrong in exactly one way, the one its message tells, and reaches as
far as it can.  With nothing between them there are no two errors of bytes that are no characters,
and two errors of useless characters only where the second begins with the replacement
character. -/
theorem errors_exact_and_maximal (source : Bytes) :
    (∀ (n : Nat) (e : Error), some (.error e) ∈ requests n (.ofBytes source) →
      ∃ before after, source = before ++ (e.text ++ after) ∧ e.pos.offset = before.length ∧
        ∀ message, Faulty before e.text after message ↔ message = e.problem.message) ∧
    ∀ (n : Nat) (e e' : Error), some (.error e) ∈ requests n (.ofBytes source) →
      some (.error e') ∈ requests n (.ofBytes source) →
      e'.pos.offset = e.pos.offset + e.text.length →
      ¬ (e.problem.message = text "invalid UTF-8" ∧ e'.problem.message = text "invalid UTF-8") ∧
      (e.problem.message = text "unrecognized input" →
        e'.problem.message = text "unrecognized input" →
        ∃ rest, e'.text = String.utf8EncodeChar replacement ++ rest) := by
  refine ⟨fun n e h => ?_, fun n e e' h h' adjacent => ?_⟩
  · obtain ⟨before, after, hsource, hoffset, hfaulty⟩ := exists_faulty h
    refine ⟨before, after, hsource, hoffset, fun message => ⟨fun hother => ?_, ?_⟩⟩
    · rw [hother.message_eq, hfaulty.message_eq]
    · rintro rfl
      exact hfaulty
  · obtain ⟨before, after, hfaulty, hfaulty'⟩ := exists_faulty_of_adjacent h h' adjacent
    refine ⟨?_, fun hmessage hmessage' => ?_⟩
    · rintro ⟨hmessage, hmessage'⟩
      rw [hmessage] at hfaulty
      rw [hmessage'] at hfaulty'
      exact hfaulty.brokenBytes.not_behind hfaulty'.brokenBytes
    · rw [hmessage] at hfaulty
      rw [hmessage'] at hfaulty'
      obtain ⟨c, cs, -, hrun⟩ := hfaulty.uselessChars
      obtain ⟨d, ds, hspelled, hrun'⟩ := hfaulty'.uselessChars
      rw [hspelled] at hrun
      refine ⟨Utf8.encode ds, ?_⟩
      rw [hspelled, Utf8.encode_cons, hrun.eq_replacement hrun']

/-- Errors of all four forms.  The replacement character is a character, and useless. -/
example :
    let source := text "9x 4294967296" ++ [0xE2, 0x80] ++ Utf8.encode ['?', replacement, '?']
    errorsOf ((requests 5 (.ofBytes source)).filterMap id) =
      [⟨⟨0, 1, 1⟩, text "9x", .invalidConstant⟩, ⟨⟨3, 1, 4⟩, text "4294967296", .outOfRange⟩,
        ⟨⟨13, 1, 14⟩, [0xE2, 0x80], .invalidUtf8⟩, ⟨⟨15, 1, 16⟩, text "?", .unrecognized⟩,
        ⟨⟨16, 1, 17⟩, Utf8.encode [replacement, '?'], .unrecognized⟩] := by
  decide +kernel

end Lexer
end CrossCompiler
