import CrossCompiler.Proofs.Json.Quoted

/-!
# The texts of literals, numbers and strings

The grammar of the values that are no array and no object, and that the reader takes exactly
these texts off the front of what it reads.  A number is read as far as it goes, so that it is
read whole only where what follows does not continue it; everything else has an end of its own.
In a string each escape stands for a character, two halves of a surrogate pair stand for one, and
a half that is left alone is replaced.
-/

namespace CrossCompiler

/-- A sequence succeeds if both of its parts do. -/
theorem bind_eq_ok_iff {ε α β : Type} {first : Except ε α} {next : α → Except ε β} {b : β} :
    first >>= next = .ok b ↔ ∃ a, first = .ok a ∧ next a = .ok b := by
  cases first with
  | error e => simp [bind, Except.bind]
  | ok a => simp [bind, Except.bind]

namespace Json

/-!
## Literals
-/

theorem literal_eq_ok_iff {whole : String} {v a : Value} {expected : List Char}
    {s rest : List Symbol} :
    literal whole v expected s = .ok (a, rest) ↔ a = v ∧ s = expected.map Symbol.char ++ rest := by
  induction expected generalizing s with
  | nil => simp [literal, eq_comm]
  | cons c expected ih =>
      cases s with
      | nil => simp [literal]
      | cons x s =>
          by_cases hx : x = .char c
          · simp [literal, hx, ih]
          · simp [literal, hx]

/-!
## Numbers
-/

/-- One or more decimal digits. -/
def IsDigits (cs : List Char) : Prop := cs ≠ [] ∧ ∀ c ∈ cs, '0' ≤ c ∧ c ≤ '9'

/-- Digits without a leading zero, or a zero. -/
inductive IsInteger : List Char → Prop
  | zero : IsInteger ['0']
  | digits {c : Char} {cs : List Char} (nonzero : c ≠ '0') (digits : IsDigits (c :: cs)) :
      IsInteger (c :: cs)

/-- A point with digits behind it, or nothing. -/
inductive IsFraction : List Char → Prop
  | none : IsFraction []
  | point {cs : List Char} (digits : IsDigits cs) : IsFraction ('.' :: cs)

/-- A letter with digits behind it, which may have a sign, or nothing. -/
inductive IsExponent : List Char → Prop
  | none : IsExponent []
  | unsigned {e : Char} {cs : List Char} (letter : e = 'e' ∨ e = 'E') (digits : IsDigits cs) :
      IsExponent (e :: cs)
  | signed {e sign : Char} {cs : List Char} (letter : e = 'e' ∨ e = 'E')
      (signed : sign = '+' ∨ sign = '-') (digits : IsDigits cs) : IsExponent (e :: sign :: cs)

/-- The numbers of JSON. -/
inductive IsNumeral : List Char → Prop
  | positive {integer fraction exponent : List Char} (integral : IsInteger integer)
      (fractional : IsFraction fraction) (exponential : IsExponent exponent) :
      IsNumeral (integer ++ fraction ++ exponent)
  | negative {integer fraction exponent : List Char} (integral : IsInteger integer)
      (fractional : IsFraction fraction) (exponential : IsExponent exponent) :
      IsNumeral ('-' :: (integer ++ fraction ++ exponent))

/-- Whether a symbol behind a number could belong to it. -/
def continuesNumber (s : Symbol) : Bool :=
  isDigit s || s = .char '.' || s = .char 'e' || s = .char 'E'

/-- What follows a number lets it end there. -/
def EndsNumber (rest : List Symbol) : Prop := ∀ s ∈ rest.head?, continuesNumber s = false

theorem isDigit_char {c : Char} : isDigit (.char c) = true ↔ '0' ≤ c ∧ c ≤ '9' := by
  simp [isDigit]

theorem isDigit_of_mem {cs : List Char} (h : ∀ c ∈ cs, '0' ≤ c ∧ c ≤ '9') :
    ∀ s ∈ cs.map Symbol.char, isDigit s = true := by
  intro s hs
  obtain ⟨c, hc, rfl⟩ := List.mem_map.1 hs
  exact isDigit_char.2 (h c hc)

/-- The digits at the front of a text. -/
theorem exists_digits (s : List Symbol) : ∃ cs : List Char, (∀ c ∈ cs, '0' ≤ c ∧ c ≤ '9') ∧
    s = cs.map Symbol.char ++ s.dropWhile isDigit := by
  induction s with
  | nil => exact ⟨[], by simp, rfl⟩
  | cons x s ih =>
      obtain ⟨cs, hcs, hs⟩ := ih
      cases x with
      | stray b => exact ⟨[], by simp, rfl⟩
      | char c =>
          by_cases hc : isDigit (.char c) = true
          · refine ⟨c :: cs, ?_, ?_⟩
            · exact List.forall_mem_cons.2 ⟨isDigit_char.1 hc, hcs⟩
            · rw [List.dropWhile_cons_of_pos hc, List.map_cons, List.cons_append, ← hs]
          · exact ⟨[], by simp, by rw [List.dropWhile_cons_of_neg hc]; rfl⟩

theorem EndsNumber.not_isDigit {rest : List Symbol} (h : EndsNumber rest) :
    ∀ s ∈ rest.head?, isDigit s = false := by
  intro s hs
  have hnot := h s hs
  simp only [continuesNumber, Bool.or_eq_false_iff] at hnot
  exact hnot.1.1.1

theorem digits_sound {context : Context} {s rest : List Symbol} {u : Unit}
    (h : digits context s = .ok (u, rest)) :
    ∃ cs, IsDigits cs ∧ s = cs.map Symbol.char ++ rest := by
  cases s with
  | nil => cases h
  | cons x s =>
      rw [digits] at h
      split_ifs at h with hx
      obtain ⟨-, rfl⟩ := Prod.mk.inj (Except.ok.inj h)
      cases x with
      | stray b => cases hx
      | char c =>
          obtain ⟨cs, hcs, hs⟩ := exists_digits s
          refine ⟨c :: cs, ⟨List.cons_ne_nil _ _, ?_⟩, ?_⟩
          · exact List.forall_mem_cons.2 ⟨isDigit_char.1 hx, hcs⟩
          · rw [List.map_cons, List.cons_append, ← hs]

theorem digits_complete {cs : List Char} (h : IsDigits cs) {rest : List Symbol}
    (hrest : ∀ s ∈ rest.head?, isDigit s = false) (context : Context) :
    digits context (cs.map Symbol.char ++ rest) = .ok ((), rest) := by
  obtain ⟨hne, hcs⟩ := h
  cases cs with
  | nil => exact absurd rfl hne
  | cons c cs =>
      rw [List.forall_mem_cons] at hcs
      rw [List.map_cons, List.cons_append, digits, if_pos (isDigit_char.2 hcs.1),
        dropWhile_append_eq (isDigit_of_mem hcs.2) hrest]

theorem exponent_sound {s rest : List Symbol} {u : Unit} (h : exponent s = .ok (u, rest)) :
    ∃ cs, IsExponent cs ∧ s = cs.map Symbol.char ++ rest := by
  unfold exponent at h
  split at h
  · next e s =>
    split_ifs at h with hletter
    · split at h
      · next sign unsigned =>
        split_ifs at h with hsign
        · obtain ⟨cs, hcs, rfl⟩ := digits_sound h
          exact ⟨e :: sign :: cs, .signed hletter hsign hcs, rfl⟩
        · obtain ⟨cs, hcs, hs⟩ := digits_sound h
          exact ⟨e :: cs, .unsigned hletter hcs, by rw [hs]; rfl⟩
      · obtain ⟨cs, hcs, rfl⟩ := digits_sound h
        exact ⟨e :: cs, .unsigned hletter hcs, rfl⟩
    · obtain ⟨-, rfl⟩ := Prod.mk.inj (Except.ok.inj h)
      exact ⟨[], .none, rfl⟩
  · obtain ⟨-, rfl⟩ := Prod.mk.inj (Except.ok.inj h)
    exact ⟨[], .none, rfl⟩

theorem exponent_complete {cs : List Char} (h : IsExponent cs) {rest : List Symbol}
    (hrest : EndsNumber rest) : exponent (cs.map Symbol.char ++ rest) = .ok ((), rest) := by
  cases h with
  | none =>
      cases rest with
      | nil => rfl
      | cons x rest =>
          cases x with
          | stray b => rfl
          | char c =>
              have hc := hrest (.char c) rfl
              simp only [continuesNumber, Bool.or_eq_false_iff, decide_eq_false_iff_not,
                Symbol.char.injEq] at hc
              show exponent (.char c :: rest) = _
              unfold exponent
              exact if_neg (not_or.2 ⟨hc.1.2, hc.2⟩)
  | @unsigned e cs hletter hdigits =>
      obtain ⟨c, cs, rfl⟩ := List.exists_cons_of_ne_nil hdigits.1
      have hc := hdigits.2 c List.mem_cons_self
      -- A digit is no sign.
      have hsign : ¬ (c = '+' ∨ c = '-') := by
        rintro (rfl | rfl) <;> exact absurd hc (by decide)
      rw [List.map_cons, List.map_cons, List.cons_append, List.cons_append, exponent,
        if_pos hletter, if_neg hsign]
      exact digits_complete hdigits hrest.not_isDigit _
  | @signed e sign cs hletter hsign hdigits =>
      rw [List.map_cons, List.map_cons, List.cons_append, List.cons_append, exponent,
        if_pos hletter, if_pos hsign]
      exact digits_complete hdigits hrest.not_isDigit _

/-- What follows the digits in front of an exponent is no digit and no point. -/
theorem IsExponent.head_not_continues {cs : List Char} (h : IsExponent cs) {rest : List Symbol}
    (hrest : EndsNumber rest) :
    ∀ s ∈ (cs.map Symbol.char ++ rest).head?, isDigit s = false ∧ s ≠ .char '.' := by
  have hletter : ∀ {e : Char}, e = 'e' ∨ e = 'E' →
      isDigit (.char e) = false ∧ Symbol.char e ≠ .char '.' := by
    rintro e (rfl | rfl) <;> decide
  intro s hs
  cases h with
  | none =>
      have hnot := hrest s hs
      simp only [continuesNumber, Bool.or_eq_false_iff, decide_eq_false_iff_not] at hnot
      exact ⟨hnot.1.1.1, hnot.1.1.2⟩
  | unsigned letter digits =>
      obtain rfl := Option.some.inj hs
      exact hletter letter
  | signed letter signed digits =>
      obtain rfl := Option.some.inj hs
      exact hletter letter

theorem fraction_sound {s rest : List Symbol} {u : Unit} (h : fraction s = .ok (u, rest)) :
    ∃ f e, IsFraction f ∧ IsExponent e ∧ s = (f ++ e).map Symbol.char ++ rest := by
  unfold fraction at h
  split at h
  · next s =>
    obtain ⟨⟨_, behind⟩, hdigits, hexponent⟩ := bind_eq_ok_iff.1 h
    obtain ⟨f, hf, rfl⟩ := digits_sound hdigits
    obtain ⟨e, he, rfl⟩ := exponent_sound hexponent
    exact ⟨'.' :: f, e, .point hf, he, by simp⟩
  · obtain ⟨e, he, rfl⟩ := exponent_sound h
    exact ⟨[], e, .none, he, rfl⟩

theorem fraction_complete {f e : List Char} (hf : IsFraction f) (he : IsExponent e)
    {rest : List Symbol} (hrest : EndsNumber rest) :
    fraction ((f ++ e).map Symbol.char ++ rest) = .ok ((), rest) := by
  have hbehind := he.head_not_continues hrest
  cases hf with
  | none =>
      rw [List.nil_append]
      have hfraction : ∀ s : List Symbol, (∀ x ∈ s.head?, x ≠ .char '.') →
          fraction s = exponent s := by
        intro s hs
        unfold fraction
        split
        · exact absurd rfl (hs (.char '.') rfl)
        · rfl
      rw [hfraction _ fun x hx => (hbehind x hx).2]
      exact exponent_complete he hrest
  | @point cs hdigits =>
      rw [List.cons_append, List.map_cons, List.cons_append, List.map_append, List.append_assoc,
        fraction, digits_complete hdigits fun x hx => (hbehind x hx).1]
      exact exponent_complete he hrest

/-- What follows an integer is no digit. -/
theorem IsFraction.head_not_isDigit {f e : List Char} (hf : IsFraction f) (he : IsExponent e)
    {rest : List Symbol} (hrest : EndsNumber rest) :
    ∀ s ∈ ((f ++ e).map Symbol.char ++ rest).head?, isDigit s = false := by
  intro s hs
  cases hf with
  | none => exact (he.head_not_continues hrest s hs).1
  | point digits =>
      obtain rfl := Option.some.inj hs
      rfl

theorem magnitude_sound {context : Context} {s rest : List Symbol} {u : Unit}
    (h : magnitude context s = .ok (u, rest)) :
    ∃ i f e, IsInteger i ∧ IsFraction f ∧ IsExponent e ∧
      s = (i ++ f ++ e).map Symbol.char ++ rest := by
  unfold magnitude at h
  split at h
  · cases h
  · next s =>
    obtain ⟨f, e, hf, he, rfl⟩ := fraction_sound h
    exact ⟨['0'], f, e, .zero, hf, he, rfl⟩
  · next x s hzero =>
    split_ifs at h with hx
    cases x with
    | stray b => cases hx
    | char c =>
        obtain ⟨cs, hcs, hs⟩ := exists_digits s
        obtain ⟨f, e, hf, he, hbehind⟩ := fraction_sound h
        refine ⟨c :: cs, f, e, .digits ?_ ⟨List.cons_ne_nil _ _, ?_⟩, hf, he, ?_⟩
        · rintro rfl
          exact hzero rfl
        · exact List.forall_mem_cons.2 ⟨isDigit_char.1 hx, hcs⟩
        · rw [hs, hbehind]
          simp

theorem magnitude_complete {i f e : List Char} (hi : IsInteger i) (hf : IsFraction f)
    (he : IsExponent e) {rest : List Symbol} (hrest : EndsNumber rest) (context : Context) :
    magnitude context ((i ++ f ++ e).map Symbol.char ++ rest) = .ok ((), rest) := by
  have hbehind := hf.head_not_isDigit he hrest
  rw [List.append_assoc, List.map_append, List.append_assoc]
  cases hi with
  | zero => exact fraction_complete hf he hrest
  | @digits c cs hnonzero hdigits =>
      have hcs := List.forall_mem_cons.1 hdigits.2
      rw [List.map_cons, List.cons_append, magnitude]
      · rw [if_pos (isDigit_char.2 hcs.1), dropWhile_append_eq (isDigit_of_mem hcs.2) hbehind]
        exact fraction_complete hf he hrest
      · exact fun h => hnonzero (Symbol.char.inj h)

/-- What is left behind a number, with the number as it was written. -/
def cutNumber (s : List Symbol) (found : Unit × List Symbol) :
    Except Failure (Value × List Symbol) :=
  .ok (.number ((s.take (s.length - found.2.length)).map Symbol.toChar), found.2)

theorem cutNumber_eq (cs : List Char) (rest : List Symbol) :
    cutNumber (cs.map Symbol.char ++ rest) ((), rest) = .ok (.number cs, rest) := by
  have hlength :
      (cs.map Symbol.char ++ rest).length - rest.length = (cs.map Symbol.char).length := by
    rw [List.length_append, Nat.add_sub_cancel]
  have htaken : (cs.map Symbol.char).map Symbol.toChar = cs := by
    rw [List.map_map]
    exact List.map_id _
  rw [cutNumber, hlength, List.take_left, htaken]

theorem number_negative (s : List Symbol) :
    number (.char '-' :: s) = magnitude .inNumber s >>= cutNumber (.char '-' :: s) := rfl

theorem number_positive {s : List Symbol} (h : ∀ unsigned, s ≠ .char '-' :: unsigned) :
    number s = magnitude .beginningOfValue s >>= cutNumber s := by
  unfold number
  dsimp only
  split
  · next unsigned => exact absurd rfl (h unsigned)
  · rfl

theorem number_sound {s rest : List Symbol} {v : Value} (h : number s = .ok (v, rest)) :
    ∃ cs, IsNumeral cs ∧ v = .number cs ∧ s = cs.map Symbol.char ++ rest := by
  have hnumeral : ∃ cs behind, IsNumeral cs ∧ s = cs.map Symbol.char ++ behind ∧
      cutNumber s ((), behind) = .ok (v, rest) := by
    by_cases hminus : ∃ unsigned, s = .char '-' :: unsigned
    · obtain ⟨unsigned, rfl⟩ := hminus
      obtain ⟨⟨_, behind⟩, hread, hcut⟩ := bind_eq_ok_iff.1 (number_negative unsigned ▸ h)
      obtain ⟨i, f, e, hi, hf, he, rfl⟩ := magnitude_sound hread
      exact ⟨'-' :: (i ++ f ++ e), behind, .negative hi hf he, rfl, hcut⟩
    · rw [number_positive (not_exists.1 hminus)] at h
      obtain ⟨⟨_, behind⟩, hread, hcut⟩ := bind_eq_ok_iff.1 h
      obtain ⟨i, f, e, hi, hf, he, rfl⟩ := magnitude_sound hread
      exact ⟨i ++ f ++ e, behind, .positive hi hf he, rfl, hcut⟩
  obtain ⟨cs, behind, hcs, rfl, hcut⟩ := hnumeral
  rw [cutNumber_eq] at hcut
  obtain ⟨rfl, rfl⟩ := Prod.mk.inj (Except.ok.inj hcut)
  exact ⟨cs, hcs, rfl, rfl⟩

theorem IsInteger.exists_digit {cs : List Char} (h : IsInteger cs) :
    ∃ c tail, cs = c :: tail ∧ '0' ≤ c ∧ c ≤ '9' := by
  cases h with
  | zero => exact ⟨'0', [], rfl, by decide⟩
  | @digits c cs nonzero digits => exact ⟨c, cs, rfl, digits.2 c List.mem_cons_self⟩

theorem number_complete {cs : List Char} (h : IsNumeral cs) {rest : List Symbol}
    (hrest : EndsNumber rest) :
    number (cs.map Symbol.char ++ rest) = .ok (.number cs, rest) := by
  cases h with
  | negative hi hf he =>
      refine bind_eq_ok_iff.2 ⟨((), rest), magnitude_complete hi hf he hrest _, ?_⟩
      exact cutNumber_eq ('-' :: _) rest
  | positive hi hf he =>
      rw [number_positive]
      · exact bind_eq_ok_iff.2
          ⟨((), rest), magnitude_complete hi hf he hrest _, cutNumber_eq _ rest⟩
      · -- A number without a sign begins with a digit.
        intro unsigned hminus
        obtain ⟨c, tail, rfl, hc⟩ := hi.exists_digit
        obtain rfl := Symbol.char.inj (List.cons.inj hminus).1
        exact absurd hc (by decide)

/-!
## Strings
-/

/-- Four hexadecimal digits and their number. -/
inductive FourDigits : List Symbol → Nat → Prop
  | mk {a b c d : Symbol} {i j k l : Nat} (first : hexValue? a = some i)
      (second : hexValue? b = some j) (third : hexValue? c = some k)
      (fourth : hexValue? d = some l) :
      FourDigits [a, b, c, d] (i * 4096 + j * 256 + k * 16 + l)

/-- A piece of a string as it stands between the quotes. -/
inductive PieceText : List Symbol → Piece → Prop
  | plain {c : Char} (quote : c ≠ '"') (backslash : c ≠ '\\') (visible : 0x20 ≤ c.toNat) :
      PieceText [.char c] (.char c)
  | stray (b : UInt8) : PieceText [.stray b] (.char replacement)
  | letter {e c : Char} (escape : escape? e = some c) : PieceText [.char '\\', .char e] (.char c)
  | code {t : List Symbol} {n : Nat} (digits : FourDigits t n) :
      PieceText (.char '\\' :: .char 'u' :: t) (.escaped n)

/-- The pieces of a string, one behind the other. -/
inductive PiecesText : List Symbol → List Piece → Prop
  | nil : PiecesText [] []
  | cons {t ts : List Symbol} {piece : Piece} {pieces : List Piece} (first : PieceText t piece)
      (others : PiecesText ts pieces) : PiecesText (t ++ ts) (piece :: pieces)

/-- The character whose number is given by the two halves of a surrogate pair. -/
def pairedChar (high low : Nat) : Char :=
  Char.ofNat (0x10000 + (high - 0xD800) * 1024 + (low - 0xDC00))

/-- The characters that pieces stand for.  A number that is no character's stands for the
replacement character, unless it is the first half of a surrogate pair. -/
inductive StandFor : List Piece → List Char → Prop
  | nil : StandFor [] []
  | char (c : Char) {pieces : List Piece} {cs : List Char} (others : StandFor pieces cs) :
      StandFor (.char c :: pieces) (c :: cs)
  | code {n : Nat} (valid : n.isValidChar) {pieces : List Piece} {cs : List Char}
      (others : StandFor pieces cs) : StandFor (.escaped n :: pieces) (Char.ofNat n :: cs)
  | pair {high low : Nat} (first : isHigh high = true) (second : isLow low = true)
      {pieces : List Piece} {cs : List Char} (others : StandFor pieces cs) :
      StandFor (.escaped high :: .escaped low :: pieces) (pairedChar high low :: cs)
  | lone {n : Nat} (invalid : ¬ n.isValidChar) {pieces : List Piece} {cs : List Char}
      (alone : isHigh n = true → ∀ low, pieces.head? = some (.escaped low) → isLow low = false)
      (others : StandFor pieces cs) : StandFor (.escaped n :: pieces) (replacement :: cs)

/-- A string between its quotes, and its characters. -/
def StringText (t : List Symbol) (cs : List Char) : Prop :=
  ∃ pieces, PiecesText t pieces ∧ StandFor pieces cs

theorem hexCode_eq_ok {a b c d : Symbol} {n : Nat} (h : hexCode a b c d = .ok n) :
    FourDigits [a, b, c, d] n := by
  unfold hexCode at h
  split at h
  · next ha hb hc hd =>
    obtain rfl := Except.ok.inj h
    exact .mk ha hb hc hd
  all_goals cases h

theorem consPiece_eq_ok {piece : Piece} {read : Except Failure (List Piece × List Symbol)}
    {pieces : List Piece} {rest : List Symbol} (h : consPiece piece read = .ok (pieces, rest)) :
    ∃ others, pieces = piece :: others ∧ read = .ok (others, rest) := by
  cases read with
  | error failure => cases h
  | ok found =>
      obtain ⟨others, behind⟩ := found
      obtain ⟨rfl, rfl⟩ := Prod.mk.inj (Except.ok.inj h)
      exact ⟨others, rfl, rfl⟩

theorem stringBody_sound {s rest : List Symbol} {pieces : List Piece}
    (h : stringBody s = .ok (pieces, rest)) :
    ∃ t, s = t ++ .char '"' :: rest ∧ PiecesText t pieces := by
  fun_induction stringBody s generalizing pieces with
  | case1 => cases h
  | case2 b s ih =>
      obtain ⟨others, rfl, hread⟩ := consPiece_eq_ok h
      obtain ⟨t, rfl, ht⟩ := ih hread
      exact ⟨.stray b :: t, rfl, .cons (.stray b) ht⟩
  | case3 s =>
      obtain ⟨rfl, rfl⟩ := Prod.mk.inj (Except.ok.inj h)
      exact ⟨[], rfl, .nil⟩
  | case4 a b c d s n hcode ih =>
      obtain ⟨others, rfl, hread⟩ := consPiece_eq_ok h
      obtain ⟨t, rfl, ht⟩ := ih hread
      exact ⟨_, rfl, .cons (.code (hexCode_eq_ok hcode)) ht⟩
  | case5 => cases h
  | case6 => cases h
  | case7 => cases h
  | case8 e s _ _ c hescape ih =>
      obtain ⟨others, rfl, hread⟩ := consPiece_eq_ok h
      obtain ⟨t, rfl, ht⟩ := ih hread
      exact ⟨_, rfl, .cons (.letter hescape) ht⟩
  | case9 => cases h
  | case10 => cases h
  | case11 => cases h
  | case12 => cases h
  | case13 c s hquote _ _ hletter hstray hend hcontrol ih =>
      obtain ⟨others, rfl, hread⟩ := consPiece_eq_ok h
      obtain ⟨t, rfl, ht⟩ := ih hread
      -- A backslash would be an escape, or the end of the text, whatever stands behind it.
      have hbackslash : c ≠ '\\' := by
        cases t with
        | nil => exact hletter _ _ rfl
        | cons x t =>
            cases x with
            | char e => exact hletter _ _ rfl
            | stray b => exact hstray _ _ rfl
      exact ⟨.char c :: t, rfl, .cons (.plain hquote hbackslash (Nat.le_of_not_lt hcontrol)) ht⟩

theorem stringBody_piece {t : List Symbol} {piece : Piece} (h : PieceText t piece)
    (s : List Symbol) : stringBody (t ++ s) = consPiece piece (stringBody s) := by
  cases h with
  | plain quote backslash visible => exact stringBody_plain quote backslash (by omega) s
  | stray b => rfl
  | letter escape =>
      refine stringBody_escape ?_ escape s
      rintro rfl
      cases escape
  | code digits =>
      obtain ⟨first, second, third, fourth⟩ := digits
      simp only [List.cons_append, List.nil_append, stringBody, hexCode, first, second, third,
        fourth]

theorem stringBody_complete {t : List Symbol} {pieces : List Piece} (h : PiecesText t pieces)
    (rest : List Symbol) : stringBody (t ++ .char '"' :: rest) = .ok (pieces, rest) := by
  induction h with
  | nil => rfl
  | cons first others ih => rw [List.append_assoc, stringBody_piece first, ih, consPiece]

/-!
### The characters of pieces
-/

theorem not_isValidChar_of_isHigh {n : Nat} (h : isHigh n = true) : ¬ n.isValidChar := by
  simp only [isHigh, Bool.and_eq_true, decide_eq_true_eq] at h
  unfold Nat.isValidChar
  omega

theorem escapedChar_of_valid {n : Nat} (h : n.isValidChar) : escapedChar n = Char.ofNat n :=
  if_pos h

theorem escapedChar_of_invalid {n : Nat} (h : ¬ n.isValidChar) : escapedChar n = replacement :=
  if_neg h

/-- A number that is no first half stands for a character by itself. -/
theorem StandFor.escaped {n : Nat} (h : isHigh n = false) {pieces : List Piece} {cs : List Char}
    (others : StandFor pieces cs) : StandFor (.escaped n :: pieces) (escapedChar n :: cs) := by
  by_cases hvalid : n.isValidChar
  · rw [escapedChar_of_valid hvalid]
    exact .code hvalid others
  · rw [escapedChar_of_invalid hvalid]
    exact .lone hvalid (fun hhigh => by rw [h] at hhigh; cases hhigh) others

/-- A first half that waits for its second half counts as a piece in front. -/
theorem standFor_joinPieces (high : Option Nat) (pieces : List Piece)
    (h : ∀ n ∈ high, isHigh n = true) :
    StandFor ((high.map Piece.escaped).toList ++ pieces) (joinPieces high pieces) := by
  fun_induction joinPieces high pieces with
  | case1 => exact .nil
  | case2 n => exact .lone (not_isValidChar_of_isHigh (h n rfl)) (by simp) .nil
  | case3 c pieces ih => exact .char c (ih (by simp))
  | case4 n c pieces ih =>
      exact .lone (not_isValidChar_of_isHigh (h n rfl)) (by simp) (.char c (ih (by simp)))
  | case5 n pieces hhigh ih => exact ih (by simpa using hhigh)
  | case6 n pieces hhigh ih => exact .escaped (by simpa using hhigh) (ih (by simp))
  | case7 first n pieces hlow ih => exact .pair (h first rfl) hlow (ih (by simp))
  | case8 first n pieces hlow hhigh ih =>
      refine .lone (not_isValidChar_of_isHigh (h first rfl)) (fun _ low hnext => ?_)
        (ih (by simpa using hhigh))
      obtain rfl : n = low := by simpa using hnext
      simpa using hlow
  | case9 first n pieces hlow hhigh ih =>
      refine .lone (not_isValidChar_of_isHigh (h first rfl)) (fun _ low hnext => ?_)
        (.escaped (by simpa using hhigh) (ih (by simp)))
      obtain rfl : n = low := by simpa using hnext
      simpa using hlow

/-- A first half without its second half is replaced. -/
theorem joinPieces_some {high : Nat} {pieces : List Piece}
    (h : ∀ low, pieces.head? = some (.escaped low) → isLow low = false) :
    joinPieces (some high) pieces = replacement :: joinPieces none pieces := by
  cases pieces with
  | nil => rfl
  | cons piece pieces =>
      cases piece with
      | char c => rfl
      | escaped n =>
          have hlow : ¬ isLow n = true := by simp [h n rfl]
          rw [joinPieces, joinPieces, if_neg hlow]
          split <;> rfl

theorem StandFor.joinPieces_eq {pieces : List Piece} {cs : List Char} (h : StandFor pieces cs) :
    joinPieces none pieces = cs := by
  induction h with
  | nil => rfl
  | char c others ih => rw [joinPieces, ih]
  | @code n valid pieces cs others ih =>
      have hhigh : ¬ isHigh n = true := fun hhigh => not_isValidChar_of_isHigh hhigh valid
      rw [joinPieces, if_neg hhigh, escapedChar_of_valid valid, ih]
  | @pair high low first second pieces cs others ih =>
      rw [joinPieces, if_pos first, joinPieces, if_pos second, ih]
      rfl
  | @lone n invalid pieces cs alone others ih =>
      rw [joinPieces]
      split_ifs with hhigh
      · rw [joinPieces_some (alone hhigh), ih]
      · rw [escapedChar_of_invalid invalid, ih]

theorem string_sound {s rest : List Symbol} {cs : List Char} (h : string s = .ok (cs, rest)) :
    ∃ t, s = t ++ .char '"' :: rest ∧ StringText t cs := by
  obtain ⟨⟨pieces, behind⟩, hread, hjoin⟩ := bind_eq_ok_iff.1 h
  obtain ⟨rfl, rfl⟩ := Prod.mk.inj (Except.ok.inj hjoin)
  obtain ⟨t, rfl, ht⟩ := stringBody_sound hread
  exact ⟨t, rfl, pieces, ht, standFor_joinPieces none pieces (by simp)⟩

theorem string_complete {t : List Symbol} {cs : List Char} (h : StringText t cs)
    (rest : List Symbol) : string (t ++ .char '"' :: rest) = .ok (cs, rest) := by
  obtain ⟨pieces, hpieces, hcs⟩ := h
  refine bind_eq_ok_iff.2 ⟨(pieces, rest), stringBody_complete hpieces rest, ?_⟩
  rw [← hcs.joinPieces_eq]
  rfl

/-!
## Values that are no array and no object
-/

/-- The texts of values that are no array and no object. -/
inductive ScalarText : List Symbol → Value → Prop
  | null : ScalarText ("null".toList.map .char) .null
  | yes : ScalarText ("true".toList.map .char) (.boolean true)
  | no : ScalarText ("false".toList.map .char) (.boolean false)
  | number {cs : List Char} (numeral : IsNumeral cs) : ScalarText (cs.map .char) (.number cs)
  | string {t : List Symbol} {cs : List Char} (body : StringText t cs) :
      ScalarText (.char '"' :: (t ++ [.char '"'])) (.string cs)

/-- Whether a symbol can follow a value inside an array or an object.  No value begins with it. -/
def isSeparator (s : Symbol) : Bool :=
  isBlank s || s = .char ',' || s = .char ']' || s = .char '\x7d'

theorem isBlank_eq_false {s : Symbol} (h : isSeparator s = false) : isBlank s = false := by
  simp only [isSeparator, Bool.or_eq_false_iff] at h
  exact h.1.1.1

/-- What follows a value lets it end there. -/
def EndsValue (v : Value) (rest : List Symbol) : Prop := ∀ cs, v = .number cs → EndsNumber rest

theorem scalar_sound {x : Symbol} {s rest : List Symbol} {v : Value}
    (h : scalar x s = .ok (v, rest)) : ∃ t, x :: s = t ++ rest ∧ ScalarText t v := by
  unfold scalar at h
  split at h
  · obtain ⟨⟨cs, behind⟩, hread, hvalue⟩ := bind_eq_ok_iff.1 h
    obtain ⟨rfl, rfl⟩ := Prod.mk.inj (Except.ok.inj hvalue)
    obtain ⟨t, rfl, ht⟩ := string_sound hread
    exact ⟨.char '"' :: (t ++ [.char '"']), by simp, .string ht⟩
  · obtain ⟨rfl, rfl⟩ := literal_eq_ok_iff.1 h
    exact ⟨_, rfl, .yes⟩
  · obtain ⟨rfl, rfl⟩ := literal_eq_ok_iff.1 h
    exact ⟨_, rfl, .no⟩
  · obtain ⟨rfl, rfl⟩ := literal_eq_ok_iff.1 h
    exact ⟨_, rfl, .null⟩
  · obtain ⟨cs, hcs, rfl, hs⟩ := number_sound h
    exact ⟨_, hs, .number hcs⟩

/-- How a number begins. -/
theorem IsNumeral.exists_first {cs : List Char} (h : IsNumeral cs) :
    ∃ c tail, cs = c :: tail ∧ (c = '-' ∨ '0' ≤ c ∧ c ≤ '9') := by
  cases h with
  | positive integral =>
      obtain ⟨c, tail, rfl, hc⟩ := integral.exists_digit
      exact ⟨c, _, rfl, .inr hc⟩
  | negative => exact ⟨'-', _, rfl, .inl rfl⟩

theorem ne_of_numeric {c d : Char} (hc : c = '-' ∨ '0' ≤ c ∧ c ≤ '9')
    (hd : ¬ (d = '-' ∨ '0' ≤ d ∧ d ≤ '9')) : Symbol.char c ≠ .char d := by
  intro h
  obtain rfl := Symbol.char.inj h
  exact hd hc

/-- A value that is no array and no object is known by its first symbol. -/
theorem ScalarText.exists_first {t : List Symbol} {v : Value} (h : ScalarText t v) :
    ∃ x tail, t = x :: tail ∧ isSeparator x = false ∧ x ≠ .char '[' ∧ x ≠ .char '\x7b' ∧
      ∀ {rest}, EndsValue v rest → scalar x (tail ++ rest) = .ok (v, rest) := by
  cases h with
  | null =>
      exact ⟨_, _, rfl, by decide, by decide, by decide, fun _ => literal_eq_ok_iff.2 ⟨rfl, rfl⟩⟩
  | yes =>
      exact ⟨_, _, rfl, by decide, by decide, by decide, fun _ => literal_eq_ok_iff.2 ⟨rfl, rfl⟩⟩
  | no =>
      exact ⟨_, _, rfl, by decide, by decide, by decide, fun _ => literal_eq_ok_iff.2 ⟨rfl, rfl⟩⟩
  | @string t cs body =>
      refine ⟨_, _, rfl, by decide, by decide, by decide, fun {rest} _ => ?_⟩
      rw [List.append_assoc, List.singleton_append]
      exact bind_eq_ok_iff.2 ⟨(cs, rest), string_complete body rest, rfl⟩
  | @number cs numeral =>
      obtain ⟨c, tail, rfl, hc⟩ := numeral.exists_first
      refine ⟨_, _, rfl, ?_, ne_of_numeric hc (by decide), ne_of_numeric hc (by decide),
        fun {rest} hrest => ?_⟩
      · simp only [isSeparator, isBlank, Bool.or_eq_false_iff, decide_eq_false_iff_not]
        refine ⟨⟨⟨⟨⟨⟨?_, ?_⟩, ?_⟩, ?_⟩, ?_⟩, ?_⟩, ?_⟩
        all_goals exact ne_of_numeric hc (by decide)
      · -- No other kind of value begins like a number.
        have hnumber : scalar (.char c) (tail.map Symbol.char ++ rest) =
            Json.number (.char c :: (tail.map Symbol.char ++ rest)) := by
          unfold scalar
          split
          · next h => exact absurd h (ne_of_numeric hc (by decide))
          · next h => exact absurd h (ne_of_numeric hc (by decide))
          · next h => exact absurd h (ne_of_numeric hc (by decide))
          · next h => exact absurd h (ne_of_numeric hc (by decide))
          · rfl
        rw [hnumber]
        exact number_complete numeral (hrest _ rfl)

theorem ScalarText.exists_last {t : List Symbol} {v : Value} (h : ScalarText t v) :
    ∃ front c, t = front ++ [.char c] := by
  cases h with
  | null => exact ⟨"nul".toList.map .char, 'l', rfl⟩
  | yes => exact ⟨"tru".toList.map .char, 'e', rfl⟩
  | no => exact ⟨"fals".toList.map .char, 'e', rfl⟩
  | @string t cs body => exact ⟨.char '"' :: t, '"', rfl⟩
  | @number cs numeral =>
      obtain ⟨c, tail, rfl, -⟩ := numeral.exists_first
      refine ⟨(c :: tail).dropLast.map .char, (c :: tail).getLast (List.cons_ne_nil _ _), ?_⟩
      rw [← List.map_singleton, ← List.map_append, List.dropLast_append_getLast]

end Json
end CrossCompiler
