import CrossCompiler.Proofs.Lexer.Scan

/-!
# The grammar of a source

What a source of tokens looks like, said on its bytes and without a scanner: lexemes that
spell tokens, white space around them, and at least one white space character wherever two
words or numerals would touch.  The scanner's own classes of characters are then joined to
the grammar's classes of bytes, and the lexeme of a cut is shown to spell its token.
-/

namespace CrossCompiler
namespace Lexer

/-- White space: UTF-8 encoded white space characters, possibly none. -/
def WhiteSpace (w : Bytes) : Prop :=
  ∃ cs : List Char, (∀ c ∈ cs, isSpace c = true) ∧ w = Utf8.encode cs

/-- `[A-Za-z_]` -/
def LetterByte (b : UInt8) : Prop :=
  b = ascii '_' ∨ (ascii 'a' ≤ b ∧ b ≤ ascii 'z') ∨ (ascii 'A' ≤ b ∧ b ≤ ascii 'Z')

/-- `[0-9]` -/
def DigitByte (b : UInt8) : Prop := ascii '0' ≤ b ∧ b ≤ ascii '9'

/-- `[A-Za-z_][A-Za-z0-9_]*` -/
def IsWord (s : Bytes) : Prop :=
  ∃ b rest, s = b :: rest ∧ LetterByte b ∧ ∀ d ∈ rest, LetterByte d ∨ DigitByte d

/-- `[0-9]+` -/
def IsNumeral (s : Bytes) : Prop := s ≠ [] ∧ ∀ b ∈ s, DigitByte b

/-- The number a numeral stands for, its last byte being the units. -/
def numeralValue (s : Bytes) : Nat :=
  Nat.ofDigits 10 (s.reverse.map fun b => b.toNat - (ascii '0').toNat)

/-- A lexeme that would run into a neighbour of its own sort. -/
def IsRun (s : Bytes) : Prop := IsWord s ∨ IsNumeral s

/-- The brackets and the semicolon, with the kinds of their tokens. -/
def marks : List (Char × Kind) :=
  [('(', .lparen), (')', .rparen), ('\x7b', .lbrace), ('\x7d', .rbrace), (';', .semicolon)]

/-- The words that are no identifiers. -/
def reserved : List Bytes := [text "int", text "void", text "return"]

/-- The lexemes of a token.  Where the token stands does not matter. -/
inductive Spells : Bytes → Token → Prop
  | mark {c : Char} {kind : Kind} (pos : Pos) :
      (c, kind) ∈ marks → Spells [ascii c] ⟨kind, [], 0, pos⟩
  | keyword {s : Bytes} (pos : Pos) : s ∈ reserved → Spells s ⟨.keyword, s, 0, pos⟩
  | identifier {s : Bytes} (pos : Pos) :
      IsWord s → s ∉ reserved → Spells s ⟨.identifier, s, 0, pos⟩
  | constant {s : Bytes} (pos : Pos) : IsNumeral s → numeralValue s < 2 ^ 32 →
      Spells s ⟨.constant, [], UInt32.ofNat (numeralValue s), pos⟩

/-- A lexeme and the white space in front of it. -/
structure Piece where
  space : Bytes
  lexeme : Bytes
  blank : WhiteSpace space

/-- A source as white space and lexemes in turn, ending in white space. -/
structure Layout where
  pieces : List Piece
  trailing : Bytes
  blank : WhiteSpace trailing

/-- The bytes of a piece. -/
def Piece.bytes (p : Piece) : Bytes := p.space ++ p.lexeme

/-- The source that is laid out. -/
def Layout.bytes (l : Layout) : Bytes := l.pieces.flatMap Piece.bytes ++ l.trailing

/-- Words and numerals next to each other are kept apart by white space. -/
def Separated (pieces : List Piece) : Prop :=
  pieces.IsChain fun p q => IsRun p.lexeme → IsRun q.lexeme → q.space ≠ []

/-- The sources of some tokens. -/
def Sentence (source : Bytes) (tokens : List Token) : Prop :=
  ∃ l : Layout, l.bytes = source ∧
    List.Forall₂ (fun p t => Spells p.lexeme t) l.pieces tokens ∧ Separated l.pieces

/-!
## Classes of characters and of bytes
-/

theorem isWordStart_iff {c : Char} : isWordStart c = true ↔
    c.toNat = 95 ∨ (97 ≤ c.toNat ∧ c.toNat ≤ 122) ∨ (65 ≤ c.toNat ∧ c.toNat ≤ 90) := by
  simp [isWordStart, Char.le_def, UInt32.le_iff_toNat_le, ← Char.toNat_inj, or_assoc]

theorem isDigit_iff {c : Char} : isDigit c = true ↔ 48 ≤ c.toNat ∧ c.toNat ≤ 57 := by
  simp [isDigit, Char.le_def, UInt32.le_iff_toNat_le]

theorem letterByte_iff {b : UInt8} : LetterByte b ↔
    b.toNat = 95 ∨ (97 ≤ b.toNat ∧ b.toNat ≤ 122) ∨ (65 ≤ b.toNat ∧ b.toNat ≤ 90) := by
  simp [LetterByte, UInt8.le_iff_toNat_le, ← UInt8.toNat_inj, ascii]

theorem digitByte_iff {b : UInt8} : DigitByte b ↔ 48 ≤ b.toNat ∧ b.toNat ≤ 57 := by
  simp [DigitByte, UInt8.le_iff_toNat_le, ascii]

theorem isWordPart_iff {c : Char} :
    isWordPart c = true ↔ isWordStart c = true ∨ isDigit c = true := by
  simp [isWordPart]

theorem toNat_lt_of_isWordPart {c : Char} (h : isWordPart c = true) : c.toNat < 0x80 := by
  rw [isWordPart_iff, isWordStart_iff, isDigit_iff] at h
  omega

theorem toNat_lt_of_letterByte_or {b : UInt8} (h : LetterByte b ∨ DigitByte b) :
    b.toNat < 0x80 := by
  rw [letterByte_iff, digitByte_iff] at h
  omega

/-- The words of the grammar are those the scanner's classes describe. -/
theorem isWord_iff {s : Bytes} : IsWord s ↔
    ∃ c cs, s = Utf8.encode (c :: cs) ∧ isWordStart c = true ∧ ∀ d ∈ cs, isWordPart d = true := by
  constructor
  · rintro ⟨b, rest, rfl, hb, hrest⟩
    have hascii : ∀ d ∈ b :: rest, d.toNat < 0x80 := by
      refine List.forall_mem_cons.2 ⟨toNat_lt_of_letterByte_or (.inl hb), ?_⟩
      exact fun d hd => toNat_lt_of_letterByte_or (hrest d hd)
    refine ⟨Utf8.charOfByte b, rest.map Utf8.charOfByte,
      (Utf8.encode_map_charOfByte hascii).symm, ?_, ?_⟩
    · rwa [isWordStart_iff, Utf8.toNat_charOfByte, ← letterByte_iff]
    · intro d hd
      obtain ⟨e, he, rfl⟩ := List.mem_map.1 hd
      rw [isWordPart_iff, isWordStart_iff, isDigit_iff, Utf8.toNat_charOfByte, ← letterByte_iff,
        ← digitByte_iff]
      exact hrest e he
  · rintro ⟨c, cs, rfl, hc, hcs⟩
    have hascii : ∀ d ∈ c :: cs, d.toNat < 0x80 := by
      refine List.forall_mem_cons.2 ⟨toNat_lt_of_isWordPart (isWordPart_iff.2 (.inl hc)), ?_⟩
      exact fun d hd => toNat_lt_of_isWordPart (hcs d hd)
    have hbyte := fun d hd => Utf8.toNat_ascii (hascii d hd)
    refine ⟨ascii c, cs.map ascii, Utf8.encode_ascii hascii, ?_, ?_⟩
    · rwa [letterByte_iff, hbyte c (by simp), ← isWordStart_iff]
    · intro b hb
      obtain ⟨d, hd, rfl⟩ := List.mem_map.1 hb
      rw [letterByte_iff, digitByte_iff, hbyte d (by simp [hd]), ← isWordStart_iff,
        ← isDigit_iff, ← isWordPart_iff]
      exact hcs d hd

theorem isNumeral_iff {s : Bytes} : IsNumeral s ↔
    ∃ c cs, s = Utf8.encode (c :: cs) ∧ ∀ d ∈ c :: cs, isDigit d = true := by
  constructor
  · rintro ⟨hne, hdigits⟩
    obtain ⟨b, rest, rfl⟩ := List.exists_cons_of_ne_nil hne
    have hascii : ∀ d ∈ b :: rest, d.toNat < 0x80 :=
      fun d hd => toNat_lt_of_letterByte_or (.inr (hdigits d hd))
    refine ⟨Utf8.charOfByte b, rest.map Utf8.charOfByte,
      (Utf8.encode_map_charOfByte hascii).symm, ?_⟩
    intro d hd
    rw [← List.map_cons] at hd
    obtain ⟨e, he, rfl⟩ := List.mem_map.1 hd
    rw [isDigit_iff, Utf8.toNat_charOfByte, ← digitByte_iff]
    exact hdigits e he
  · rintro ⟨c, cs, rfl, hdigits⟩
    have hascii : ∀ d ∈ c :: cs, d.toNat < 0x80 :=
      fun d hd => toNat_lt_of_isWordPart (isWordPart_iff.2 (.inr (hdigits d hd)))
    rw [Utf8.encode_ascii hascii]
    refine ⟨by simp, fun b hb => ?_⟩
    obtain ⟨d, hd, rfl⟩ := List.mem_map.1 hb
    rw [digitByte_iff, Utf8.toNat_ascii (hascii d hd), ← isDigit_iff]
    exact hdigits d hd

/-- The scanner's sum over the digits is the value of the numeral. -/
theorem numeralValue_encode {cs : List Char} (h : ∀ d ∈ cs, isDigit d = true) :
    numeralValue (Utf8.encode cs) = decimalValue cs := by
  have hascii : ∀ d ∈ cs, d.toNat < 0x80 :=
    fun d hd => toNat_lt_of_isWordPart (isWordPart_iff.2 (.inr (h d hd)))
  rw [Utf8.encode_ascii hascii, numeralValue]
  clear h
  induction cs using List.reverseRecOn with
  | nil => rfl
  | append_singleton cs d ih =>
      have hlast : (ascii d).toNat = d.toNat := Utf8.toNat_ascii (hascii d (by simp))
      have hzero : (ascii '0').toNat = 48 := rfl
      have hstep : decimalValue (cs ++ [d]) = 10 * decimalValue cs + (d.toNat - 48) :=
        List.foldl_append
      rw [hstep, ← ih fun c hc => hascii c (List.mem_append_left _ hc), List.map_append,
        List.reverse_append, List.map_append]
      simp only [List.map_cons, List.map_nil, List.reverse_singleton, List.singleton_append,
        Nat.ofDigits_cons, hlast, hzero]
      exact Nat.add_comm _ _

theorem punctuation?_eq_some_iff {c : Char} {kind : Kind} :
    punctuation? c = some kind ↔ (c, kind) ∈ marks := by
  constructor
  · intro h
    unfold punctuation? at h
    split at h
    all_goals simp [marks] at h ⊢
    all_goals exact h.symm
  · intro h
    simp only [marks, List.mem_cons, Prod.mk.injEq, List.not_mem_nil, or_false] at h
    rcases h with ⟨rfl, rfl⟩ | ⟨rfl, rfl⟩ | ⟨rfl, rfl⟩ | ⟨rfl, rfl⟩ | ⟨rfl, rfl⟩ <;> rfl

theorem marks_ascii : ∀ m ∈ marks, m.1.toNat < 0x80 := by decide

theorem marks_not_isSpace : ∀ m ∈ marks, isSpace m.1 = false := by decide

theorem marks_not_isWordPart : ∀ m ∈ marks, isWordPart m.1 = false := by decide

theorem punctuation?_eq_none_of_isWordPart {c : Char} (h : isWordPart c = true) :
    punctuation? c = none := by
  cases hmark : punctuation? c with
  | none => rfl
  | some kind =>
      have hfalse := marks_not_isWordPart _ (punctuation?_eq_some_iff.1 hmark)
      simp [h] at hfalse

theorem isSpace_eq_false_of_isWordPart {c : Char} (h : isWordPart c = true) :
    isSpace c = false := by
  rw [isWordPart_iff, isWordStart_iff, isDigit_iff] at h
  simp only [isSpace, spaceRanges, List.any_cons, List.any_nil, Bool.or_false,
    Bool.or_eq_false_iff, Bool.and_eq_false_iff, decide_eq_false_iff_not]
  omega

/-!
## Lexemes and the tokens they spell
-/

theorem continues_mark {c : Char} {kind : Kind} (h : punctuation? c = some kind) (s : Symbol) :
    continues (.char c) s = false := by
  cases s with
  | char d => simp [continues, h]
  | stray b => rfl

theorem continues_wordPart {c : Char} (h : isWordPart c = true) (d : Char) :
    continues (.char c) (.char d) = isWordPart d := by
  simp [continues, punctuation?_eq_none_of_isWordPart h, h]

/-- White space continues no lexeme. -/
theorem continues_blank (first : Symbol) {s : Symbol} (h : isBlank s = true) :
    continues first s = false := by
  cases s with
  | stray b => cases h
  | char c =>
      cases first with
      | stray b => rfl
      | char f =>
          have hspace : isSpace c = true := h
          have hpart : isWordPart c = false := by
            rw [← Bool.not_eq_true]
            intro hpart
            rw [isSpace_eq_false_of_isWordPart hpart] at hspace
            cases hspace
          have hforeign : isForeign c = false := by simp [isForeign, hspace]
          simp only [continues, hpart, hforeign, ite_self]

/-- What continues a character is made of characters. -/
theorem exists_chars_of_continues {c : Char} {tail : List Symbol}
    (joined : ∀ s ∈ tail, continues (.char c) s = true) :
    ∃ ds : List Char, tail = ds.map Symbol.char ∧
      ∀ d ∈ ds, continues (.char c) (.char d) = true := by
  have hchar : ∀ s ∈ tail, s.isStray = false := by
    intro s hs
    cases s with
    | char d => rfl
    | stray b => cases joined _ hs
  obtain ⟨ds, rfl⟩ := Utf8.exists_map_char hchar
  exact ⟨ds, rfl, List.forall_mem_map.1 joined⟩

/-- What continues a word or numeral is made of characters of words. -/
theorem exists_chars_of_joined {c : Char} (h : isWordPart c = true) {tail : List Symbol}
    (joined : ∀ s ∈ tail, continues (.char c) s = true) :
    ∃ ds : List Char, tail = ds.map Symbol.char ∧ ∀ d ∈ ds, isWordPart d = true := by
  obtain ⟨ds, rfl, hds⟩ := exists_chars_of_continues joined
  refine ⟨ds, rfl, fun d hd => ?_⟩
  rw [← continues_wordPart h]
  exact hds d hd

/-- Where an item stands. -/
def Item.pos : Item → Pos
  | .token t => t.pos
  | .error e => e.pos

/-- The part of the source an item was made from. -/
def Shows (s : Bytes) : Item → Prop
  | .token t => Spells s t
  | .error e => e.text = s

theorem pos_classify (pos : Pos) (first : Symbol) (tail : List Symbol) :
    (classify pos first tail).pos = pos := by
  cases first with
  | stray b => rfl
  | char c =>
      simp only [classify]
      split
      · rfl
      · split_ifs <;> rfl

theorem wordKind_of_mem_reserved {s : Bytes} (h : s ∈ reserved) : wordKind s = .keyword :=
  if_pos (List.contains_iff_mem.2 h)

theorem wordKind_of_not_mem_reserved {s : Bytes} (h : s ∉ reserved) :
    wordKind s = .identifier :=
  if_neg fun hc => h (List.contains_iff_mem.1 hc)

theorem spells_word {s : Bytes} (h : IsWord s) (pos : Pos) :
    Spells s ⟨wordKind s, s, 0, pos⟩ := by
  by_cases hs : s ∈ reserved
  · rw [wordKind_of_mem_reserved hs]
    exact .keyword pos hs
  · rw [wordKind_of_not_mem_reserved hs]
    exact .identifier pos h hs

theorem classify_mark {c : Char} {kind : Kind} (h : punctuation? c = some kind) (pos : Pos)
    (tail : List Symbol) : classify pos (.char c) tail = .token ⟨kind, [], 0, pos⟩ := by
  simp only [classify, h]

theorem classify_word {c : Char} (h : isWordStart c = true) (pos : Pos) (ds : List Char) :
    classify pos (.char c) (ds.map Symbol.char) =
      .token ⟨wordKind (Utf8.encode (c :: ds)), Utf8.encode (c :: ds), 0, pos⟩ := by
  have hmark : punctuation? c = none :=
    punctuation?_eq_none_of_isWordPart (isWordPart_iff.2 (.inl h))
  have hbytes : (Symbol.char c :: ds.map Symbol.char).flatMap Symbol.bytes =
      Utf8.encode (c :: ds) := Utf8.flatMap_bytes_map_char (c :: ds)
  simp only [classify, hmark, hbytes, h, if_true]

/-- A lexeme that begins with a digit is a constant if it is a numeral and its value has room
in 32 bits. -/
theorem classify_digit {c : Char} (h : isDigit c = true) (pos : Pos) (ds : List Char) :
    classify pos (.char c) (ds.map Symbol.char) =
      if ds.all isDigit = true then
        if numeralValue (Utf8.encode (c :: ds)) < 2 ^ 32 then
          .token ⟨.constant, [], UInt32.ofNat (numeralValue (Utf8.encode (c :: ds))), pos⟩
        else .error ⟨pos, Utf8.encode (c :: ds), .outOfRange⟩
      else .error ⟨pos, Utf8.encode (c :: ds), .invalidConstant⟩ := by
  have hpart : isWordPart c = true := isWordPart_iff.2 (.inr h)
  have hstart : isWordStart c = false := by
    rw [← Bool.not_eq_true, isWordStart_iff]
    rw [isDigit_iff] at h
    omega
  have hbytes : (Symbol.char c :: ds.map Symbol.char).flatMap Symbol.bytes =
      Utf8.encode (c :: ds) := Utf8.flatMap_bytes_map_char (c :: ds)
  have hchars : (Symbol.char c :: ds.map Symbol.char).map Symbol.toChar = c :: ds := by
    simp [Symbol.toChar, Function.comp_def]
  simp only [classify, punctuation?_eq_none_of_isWordPart hpart, hbytes, hchars, hstart, h,
    Bool.false_eq_true, if_false, if_true, List.all_cons, Bool.true_and]
  by_cases hall : ds.all isDigit = true
  · have hdigits : ∀ d ∈ c :: ds, isDigit d = true :=
      List.forall_mem_cons.2 ⟨h, List.all_eq_true.1 hall⟩
    rw [if_pos hall, if_pos hall, numeralValue_encode hdigits]
    rfl
  · rw [if_neg hall, if_neg hall]

theorem classify_foreign {c : Char} (hmark : punctuation? c = none)
    (hpart : isWordPart c = false) (pos : Pos) (tail : List Symbol) :
    classify pos (.char c) tail =
      .error ⟨pos, (Symbol.char c :: tail).flatMap Symbol.bytes, .unrecognized⟩ := by
  obtain ⟨hstart, hdigit⟩ := Bool.or_eq_false_iff.1 hpart
  simp only [classify, hmark, hstart, hdigit, Bool.false_eq_true, if_false]

/-- Every lexeme is shown by its item, token or error. -/
theorem shows_classify (pos : Pos) {first : Symbol} {tail : List Symbol}
    (joined : ∀ s ∈ tail, continues first s = true) :
    Shows ((first :: tail).flatMap Symbol.bytes) (classify pos first tail) := by
  cases first with
  | stray b => rfl
  | char c =>
      cases hmark : punctuation? c with
      | some kind =>
          -- A mark is a lexeme by itself.
          obtain rfl : tail = [] := by
            refine List.eq_nil_iff_forall_not_mem.2 fun s hs => ?_
            simpa [continues_mark hmark] using joined s hs
          have hc := punctuation?_eq_some_iff.1 hmark
          have hbytes : [Symbol.char c].flatMap Symbol.bytes = [ascii c] := by
            simpa [Symbol.bytes] using Utf8.utf8EncodeChar_ascii (marks_ascii _ hc)
          rw [classify_mark hmark, hbytes]
          exact .mark pos hc
      | none =>
          cases hpart : isWordPart c with
          | false => rw [classify_foreign hmark hpart]; rfl
          | true =>
              obtain ⟨ds, rfl, hds⟩ := exists_chars_of_joined hpart joined
              rw [← List.map_cons, Utf8.flatMap_bytes_map_char]
              rcases isWordPart_iff.1 hpart with hstart | hdigit
              · rw [classify_word hstart]
                exact spells_word (isWord_iff.2 ⟨c, ds, rfl, hstart, hds⟩) pos
              · rw [classify_digit hdigit]
                split_ifs with hall hlt
                · have hdigits : ∀ d ∈ c :: ds, isDigit d = true :=
                    List.forall_mem_cons.2 ⟨hdigit, List.all_eq_true.1 hall⟩
                  exact .constant pos (isNumeral_iff.2 ⟨c, ds, rfl, hdigits⟩) hlt
                · rfl
                · rfl

theorem isWord_of_mem_reserved {s : Bytes} (h : s ∈ reserved) : IsWord s := by
  simp only [reserved, List.mem_cons, List.not_mem_nil, or_false] at h
  rcases h with rfl | rfl | rfl
  · exact isWord_iff.2 ⟨'i', ['n', 't'], rfl, by decide, List.all_eq_true.1 (by decide)⟩
  · exact isWord_iff.2 ⟨'v', ['o', 'i', 'd'], rfl, by decide, List.all_eq_true.1 (by decide)⟩
  · exact isWord_iff.2
      ⟨'r', ['e', 't', 'u', 'r', 'n'], rfl, by decide, List.all_eq_true.1 (by decide)⟩

/-- A lexeme as the scanner meets it: characters of which the first decides where the lexeme
ends, and which give the token wherever they stand. -/
structure ReadsAs (s : Bytes) (t : Token) (c : Char) (ds : List Char) : Prop where
  spelling : s = Utf8.encode (c :: ds)
  visible : isSpace c = false
  joined : ∀ d ∈ ds, continues (.char c) (.char d) = true
  sort : (∃ kind, punctuation? c = some kind) ∨ isWordPart c = true ∧ IsRun s
  gives : ∀ pos, classify pos (.char c) (ds.map Symbol.char) =
    .token ⟨t.kind, t.text, t.value, pos⟩

theorem exists_readsAs_of_isWord {s : Bytes} (h : IsWord s) (pos : Pos) :
    ∃ c ds, ReadsAs s ⟨wordKind s, s, 0, pos⟩ c ds := by
  obtain ⟨c, ds, rfl, hstart, hds⟩ := isWord_iff.1 h
  have hpart : isWordPart c = true := isWordPart_iff.2 (.inl hstart)
  refine ⟨c, ds, rfl, isSpace_eq_false_of_isWordPart hpart, ?_, .inr ⟨hpart, .inl h⟩, ?_⟩
  · exact fun d hd => by rw [continues_wordPart hpart, hds d hd]
  · exact fun pos => classify_word hstart pos ds

/-- The scanner reads every lexeme of the grammar as its token. -/
theorem Spells.exists_readsAs {s : Bytes} {t : Token} (h : Spells s t) :
    ∃ c ds, ReadsAs s t c ds := by
  cases h with
  | @mark c kind _ hmark =>
      have hkind : punctuation? c = some kind := punctuation?_eq_some_iff.2 hmark
      refine ⟨c, [], ?_, marks_not_isSpace _ hmark, by simp, .inl ⟨kind, hkind⟩, ?_⟩
      · rw [Utf8.encode_ascii (by simpa using marks_ascii _ hmark)]
        rfl
      · exact fun pos => classify_mark hkind pos []
  | keyword pos hs =>
      rw [← wordKind_of_mem_reserved hs]
      exact exists_readsAs_of_isWord (isWord_of_mem_reserved hs) pos
  | identifier pos hs hnot =>
      rw [← wordKind_of_not_mem_reserved hnot]
      exact exists_readsAs_of_isWord hs pos
  | constant _ hs hlt =>
      obtain ⟨c, ds, rfl, hdigits⟩ := isNumeral_iff.1 hs
      have hpart : ∀ d ∈ c :: ds, isWordPart d = true :=
        fun d hd => isWordPart_iff.2 (.inr (hdigits d hd))
      rw [List.forall_mem_cons] at hpart hdigits
      refine ⟨c, ds, rfl, isSpace_eq_false_of_isWordPart hpart.1, ?_, .inr ⟨hpart.1, .inr hs⟩, ?_⟩
      · exact fun d hd => by rw [continues_wordPart hpart.1, hpart.2 d hd]
      · intro pos
        rw [classify_digit hdigits.1, if_pos (List.all_eq_true.2 hdigits.2), if_pos hlt]

end Lexer
end CrossCompiler
