import CrossCompiler.Proofs.Json.Quoted

/-!
# Indented texts are read back

An array or an object that is not empty is written with one entry a line: the opening
bracket, the entries with an indentation in front of each and a comma between neighbours,
and the closing bracket on a line of its own.  What reads each entry back reads the whole
back.  The elements of an array and the members of an object are read by one loop, and so
the argument is made once, for that loop.
-/

namespace CrossCompiler
namespace Json

open Utf8

/-- A reader takes a value off the front of every text that begins with a byte string.  The
byte string is valid and begins with no white space, so it can stand behind an indentation. -/
structure Reader.Takes {α : Type} (read : Reader α) (written : Bytes) (a : α) : Prop where
  valid : isValid written = true
  solid : ∀ s, skipBlanks (symbols (written ++ s)) = symbols (written ++ s)
  takes : ∀ s, read (symbols (written ++ s)) = .ok (a, symbols s)

/-!
## Values that are no array and no object
-/

theorem isValid_hexEscape (c : Char) : isValid (hexEscape c) = true := by
  have hdigit : ∀ n, n % 16 < 16 := fun n => Nat.mod_lt n (by decide)
  have hascii : ∀ b ∈ Bytes.hex 4 c.toNat, b.toNat < 0x80 := by
    rw [hex_four]
    simp [hexDigit_lt _ (hdigit _)]
  refine isValid_append (isValid_text _) (isValid_iff.2 ⟨_, (encode_map_charOfByte hascii).symm⟩)

theorem isValid_writeChar (markup : Markup) (c : Char) : isValid (writeChar markup c) = true := by
  unfold writeChar
  split
  · next letter h =>
    exact isValid_iff.2 ⟨_, (encode_shortEscape h).symm⟩
  · split_ifs
    · exact isValid_hexEscape c
    · exact isValid_hexEscape c
    · exact isValid_hexEscape c
    · exact isValid_iff.2 ⟨[c], (List.flatMap_singleton _ _).symm⟩

theorem isValid_writeString (markup : Markup) (s : Bytes) :
    isValid (writeString markup s) = true :=
  isValid_append (isValid_append (isValid_text _) (isValid_flatMap (isValid_writeChar markup)))
    (isValid_text _)

theorem value_scalar {s : Symbol} (hbracket : s ≠ .char '[') (hbrace : s ≠ .char '\x7b')
    (depth : Nat) (rest : List Symbol) : value depth (s :: rest) = scalar s rest := by
  cases depth with
  | zero => rw [value, if_neg (by simp [hbracket, hbrace])]
  | succ depth => rw [value, if_neg hbracket, if_neg hbrace]

theorem takes_null (depth : Nat) : Reader.Takes (value depth) (text "null") .null where
  valid := isValid_text _
  solid s := by
    rw [symbols_text_append]
    rfl
  takes s := by
    rw [symbols_text_append]
    exact value_scalar (by decide) (by decide) depth _

/-- A written string is read as its characters, with a replacement character for each stray
byte. -/
theorem takes_string (markup : Markup) (depth : Nat) (s : Bytes) :
    Reader.Takes (value depth) (writeString markup s) (.string (toChars s)) where
  valid := isValid_writeString markup s
  solid t := by
    rw [writeString, List.append_assoc, List.append_assoc, symbols_text_append]
    rfl
  takes t := by
    have hread := string_written markup (toChars s) t
    have hopen : "\"".toList = ['"'] := rfl
    rw [writeString, List.append_assoc, List.append_assoc, symbols_text_append, hopen]
    simp only [List.map_cons, List.map_nil, List.cons_append, List.nil_append]
    rw [value_scalar (by decide) (by decide)]
    simp only [scalar, hread, bind, Except.bind, pure, Except.pure]

/-!
## Entries in a series
-/

/-- Reads one or more entries with commas between them, and the closing bracket. -/
def series {α : Type} (entry : Reader α) (close : Char) (context : Context) :
    (fuel : Nat) → Reader (List α)
  | 0, _ => .error .cutOff
  | fuel + 1, s => do
    let (first, rest) ← entry s
    match skipBlanks rest with
    | [] => .error .cutOff
    | next :: rest =>
      if next = .char close then return ([first], rest)
      else if next = .char ',' then do
        let (others, rest) ← series entry close context fuel (skipBlanks rest)
        return (first :: others, rest)
      else .error (.unexpected next context)

/-- Reads a member of an object. -/
def member (value : Reader Value) : Reader (List Char × Value) := fun s => do
  let (name, rest) ← key s
  let (found, rest) ← value rest
  return ((name, found), rest)

theorem elements_eq_series (value : Reader Value) (fuel : Nat) :
    elements value fuel = series value ']' .afterElement fuel := by
  induction fuel with
  | zero => rfl
  | succ fuel ih =>
      funext s
      rw [elements, series]
      exact ih ▸ rfl

theorem members_eq_series (value : Reader Value) (fuel : Nat) :
    members value fuel = series (member value) '\x7d' .afterMember fuel := by
  induction fuel with
  | zero => rfl
  | succ fuel ih =>
      funext s
      rw [members, series, member]
      simp only [bind, Except.bind]
      cases key s with
      | error failure => rfl
      | ok named =>
          cases hvalue : value named.2 with
          | error failure => simp only [hvalue]
          | ok found =>
              simp only [hvalue]
              exact ih ▸ rfl

section Series

variable {α : Type} {entry : Reader α} {close : Char} {context : Context} {fuel : Nat}
  {s rest behind : List Symbol} {first : α} {others : List α}

theorem series_last (hfirst : entry s = .ok (first, rest))
    (hclose : skipBlanks rest = .char close :: behind) :
    series entry close context (fuel + 1) s = .ok ([first], behind) := by
  rw [series, hfirst]
  simp only [bind, Except.bind, hclose, if_true]
  rfl

theorem series_more {left : List Symbol} (hne : close ≠ ',')
    (hfirst : entry s = .ok (first, rest)) (hcomma : skipBlanks rest = .char ',' :: behind)
    (hothers : series entry close context fuel (skipBlanks behind) = .ok (others, left)) :
    series entry close context (fuel + 1) s = .ok (first :: others, left) := by
  have hopen : ¬ Symbol.char ',' = Symbol.char close := by simpa using hne.symm
  rw [series, hfirst]
  simp only [bind, Except.bind, hcomma, if_neg hopen, if_true, hothers]
  rfl

/-- Reads what stands behind an opening bracket, with the closing one. -/
def bracketed (entry : Reader α) (close : Char) (context : Context) : Reader (List α) := fun s =>
  if (skipBlanks s).head? = some (.char close) then .ok ([], (skipBlanks s).tail)
  else series entry close context ((skipBlanks s).length + 1) (skipBlanks s)

/-- Entries are read behind a bracket if no entry can begin with the closing one. -/
theorem bracketed_of_series {found : List α}
    (hclose : ∀ tail, ∃ failure, entry (.char close :: tail) = .error failure)
    (h : series entry close context ((skipBlanks s).length + 1) (skipBlanks s) =
      .ok (found, rest)) :
    bracketed entry close context s = .ok (found, rest) := by
  rw [bracketed, if_neg, h]
  intro hhead
  obtain ⟨failure, hfail⟩ := hclose (skipBlanks s).tail
  rw [← List.cons_head?_tail hhead, series, hfail] at h
  cases h

end Series

/-!
## One entry a line
-/

/-- The entries of an array or an object, each on a line of its own. -/
def lines (indent : String) (entries : List Bytes) : Bytes :=
  Bytes.join (text ",\n") (entries.map (text indent ++ ·))

/-- What may stand around the entries: white space in front of each, and behind the last
one white space and the closing bracket. -/
structure Frame (indent ending : String) (close : Char) : Prop where
  indents : ∀ s, skipBlanks (indent.toList.map Symbol.char ++ s) = skipBlanks s
  ends : ∀ s, skipBlanks (ending.toList.map Symbol.char ++ s) = .char close :: s
  close_ne : close ≠ ','

theorem lines_cons (indent : String) (e f : Bytes) (entries : List Bytes) :
    lines indent (e :: f :: entries) =
      text indent ++ e ++ text ",\n" ++ lines indent (f :: entries) := rfl

theorem skipBlanks_comma (s : Bytes) :
    skipBlanks (symbols (text ",\n" ++ s)) = .char ',' :: .char '\n' :: symbols s := by
  rw [symbols_text_append]
  rfl

section Lines

variable {α : Type} {entry : Reader α} {indent ending : String} {close : Char}

theorem isValid_lines (indent : String) {entries : List Bytes} {found : List α}
    (h : List.Forall₂ entry.Takes entries found) : isValid (lines indent entries) = true := by
  induction h with
  | nil => rfl
  | cons he htail ih =>
      have hfirst := isValid_append (isValid_text indent) he.valid
      cases htail with
      | nil => exact hfirst
      | cons => exact isValid_append (isValid_append hfirst (isValid_text _)) ih

theorem Frame.skipBlanks_entry (frame : Frame indent ending close) {e : Bytes} {a : α}
    (he : entry.Takes e a) (s : Bytes) :
    skipBlanks (symbols (text indent ++ (e ++ s))) = symbols (e ++ s) := by
  rw [symbols_text_append, frame.indents, he.solid]

/-- There are no more entries than commas and one, so the length of the text is fuel enough. -/
theorem Frame.length_le (frame : Frame indent ending close) {entries : List Bytes}
    {found : List α} (h : List.Forall₂ entry.Takes entries found) (s : Bytes) :
    entries.length ≤ (skipBlanks (symbols (lines indent entries ++ s))).length + 1 := by
  induction h with
  | nil => exact Nat.zero_le _
  | cons he htail ih =>
      cases htail with
      | nil => exact Nat.le_add_left _ _
      | @cons f b entries found hf htail =>
          have hskip : (skipBlanks (symbols (lines indent (f :: entries) ++ s))).length ≤
              (symbols (lines indent (f :: entries) ++ s)).length :=
            (List.dropWhile_sublist _).length_le
          have hcomma : ",\n".toList = [',', '\n'] := rfl
          rw [lines_cons, List.append_assoc, List.append_assoc, List.append_assoc,
            frame.skipBlanks_entry he, symbols_append he.valid, symbols_text_append, hcomma]
          simp only [List.length_cons, List.length_append, List.length_map, List.length_nil] at ih ⊢
          omega

theorem Frame.series_lines (frame : Frame indent ending close) {context : Context}
    {entries : List Bytes} {found : List α} (h : List.Forall₂ entry.Takes entries found)
    (hne : entries ≠ []) {fuel : Nat} (hfuel : entries.length ≤ fuel) (s : Bytes) :
    series entry close context fuel
        (skipBlanks (symbols (lines indent entries ++ (text ending ++ s)))) =
      .ok (found, symbols s) := by
  induction h generalizing fuel with
  | nil => exact absurd rfl hne
  | cons he htail ih =>
      obtain ⟨fuel, rfl⟩ : ∃ n, fuel = n + 1 := Nat.exists_eq_add_one_of_ne_zero (by grind)
      cases htail with
      | nil =>
          have hlines := frame.skipBlanks_entry he (text ending ++ s)
          rw [← List.append_assoc] at hlines
          refine (congrArg _ hlines).trans (series_last (he.takes _) ?_)
          rw [symbols_text_append, frame.ends]
      | cons hf htail =>
          rw [lines_cons, List.append_assoc, List.append_assoc, List.append_assoc,
            frame.skipBlanks_entry he]
          -- The white space behind the comma is skipped with the next indentation.
          refine series_more frame.close_ne (he.takes _) (skipBlanks_comma _) ?_
          exact ih (List.cons_ne_nil _ _) (Nat.le_of_succ_le_succ hfuel)

theorem Frame.bracketed_lines (frame : Frame indent ending close) {context : Context}
    (hclose : ∀ tail, ∃ failure, entry (.char close :: tail) = .error failure)
    {entries : List Bytes} {found : List α} (h : List.Forall₂ entry.Takes entries found)
    (hne : entries ≠ []) (s : Bytes) :
    bracketed entry close context
        (.char '\n' :: symbols (lines indent entries ++ (text ending ++ s))) =
      .ok (found, symbols s) :=
  bracketed_of_series hclose (frame.series_lines h hne (frame.length_le h _) s)

end Lines

/-!
## Arrays and objects
-/

theorem value_array (depth : Nat) (s : List Symbol) :
    value (depth + 1) (.char '[' :: s) =
      bracketed (value depth) ']' .afterElement s >>= fun found =>
        .ok (.array found.1, found.2) := by
  rw [value, if_pos rfl, bracketed]
  split
  · next rest h =>
    rw [h, if_pos List.head?_cons]
    rfl
  · next h =>
    rw [if_neg, elements_eq_series]
    · rfl
    · intro hclose
      exact h _ (List.cons_head?_tail hclose).symm

theorem value_object (depth : Nat) (s : List Symbol) :
    value (depth + 1) (.char '\x7b' :: s) =
      bracketed (member (value depth)) '\x7d' .afterMember s >>= fun found =>
        .ok (.object found.1, found.2) := by
  rw [value, if_neg (by decide), if_pos rfl, bracketed]
  split
  · next rest h =>
    rw [h, if_pos List.head?_cons]
    rfl
  · next h =>
    rw [if_neg, members_eq_series]
    · rfl
    · intro hclose
      exact h _ (List.cons_head?_tail hclose).symm

theorem takes_emptyArray (depth : Nat) :
    Reader.Takes (value (depth + 1)) (text "[]") (.array []) where
  valid := isValid_text _
  solid s := by
    rw [symbols_text_append]
    rfl
  takes s := by
    rw [symbols_text_append]
    rfl

/-- An array is read back if its elements are. -/
theorem takes_array {indent ending : String} (frame : Frame indent ending ']') {depth : Nat}
    {entries : List Bytes} {found : List Value}
    (h : List.Forall₂ (Reader.Takes (value depth)) entries found) (hne : entries ≠ []) :
    Reader.Takes (value (depth + 1)) (text "[\n" ++ lines indent entries ++ text ending)
      (.array found) where
  valid := isValid_append (isValid_append (isValid_text _) (isValid_lines indent h))
    (isValid_text _)
  solid s := by
    rw [List.append_assoc, List.append_assoc, symbols_text_append]
    rfl
  takes s := by
    rw [List.append_assoc, List.append_assoc, symbols_text_append]
    have hclose : ∀ tail, ∃ failure, value depth (.char ']' :: tail) = .error failure :=
      fun tail => ⟨_, value_scalar (by decide) (by decide) depth tail⟩
    refine (value_array depth (.char '\n' :: symbols _)).trans ?_
    rw [frame.bracketed_lines hclose h hne]
    rfl

/-- An object is read back if its members are. -/
theorem takes_object {indent ending : String} (frame : Frame indent ending '\x7d')
    {depth : Nat} {entries : List Bytes} {found : List (List Char × Value)}
    (h : List.Forall₂ (Reader.Takes (member (value depth))) entries found) (hne : entries ≠ []) :
    Reader.Takes (value (depth + 1)) (text "\x7b\n" ++ lines indent entries ++ text ending)
      (.object found) where
  valid := isValid_append (isValid_append (isValid_text _) (isValid_lines indent h))
    (isValid_text _)
  solid s := by
    rw [List.append_assoc, List.append_assoc, symbols_text_append]
    rfl
  takes s := by
    rw [List.append_assoc, List.append_assoc, symbols_text_append]
    refine (value_object depth (.char '\n' :: symbols _)).trans ?_
    rw [frame.bracketed_lines (fun tail => ⟨_, rfl⟩) h hne]
    rfl

/-- A member of an object: its name, and behind it what is written for its value. -/
def writeMember (name : List Char) (written : Bytes) : Bytes :=
  text "\"" ++ name.flatMap (writeChar .escaped) ++ text "\": " ++ written

theorem writeMember_append (name : List Char) (written s : Bytes) :
    writeMember name written ++ s = writeMember name (written ++ s) :=
  List.append_assoc _ _ _

theorem symbols_writeMember (name : List Char) (written : Bytes) :
    symbols (writeMember name written) =
      .char '"' :: symbols (name.flatMap (writeChar .escaped) ++
        (text "\"" ++ (text ": " ++ written))) := by
  have hcolon : text "\": " = text "\"" ++ text ": " := rfl
  rw [writeMember, hcolon, List.append_assoc, List.append_assoc, List.append_assoc,
    symbols_text_append]
  rfl

theorem key_writeMember (name : List Char) (written : Bytes) :
    key (symbols (writeMember name written)) = .ok (name, skipBlanks (symbols written)) := by
  have hcolon : skipBlanks (symbols (text ": " ++ written)) =
      .char ':' :: .char ' ' :: symbols written := by
    rw [symbols_text_append]
    rfl
  rw [symbols_writeMember, key, if_pos rfl, string_written]
  simp only [bind, Except.bind, hcolon, if_true]
  rfl

/-- A member is read back if its value is. -/
theorem takes_member {read : Reader Value} {written : Bytes} {found : Value}
    (h : read.Takes written found) (name : List Char) :
    Reader.Takes (member read) (writeMember name written) (name, found) where
  valid := isValid_append (isValid_append (isValid_append (isValid_text _)
    (isValid_flatMap (isValid_writeChar .escaped))) (isValid_text _)) h.valid
  solid s := by
    rw [writeMember_append, symbols_writeMember]
    rfl
  takes s := by
    rw [writeMember_append, member, key_writeMember, h.solid]
    simp only [bind, Except.bind, h.takes]
    rfl

/-- A text that begins with a written value gives that value. -/
theorem readFirst_of_takes {written : Bytes} {found : Value}
    (h : Reader.Takes (value depthLimit) written found) (s : Bytes) :
    readFirst (written ++ s) = .ok found := by
  have hread := h.takes s
  rw [readFirst, h.solid]
  split
  · next hnil =>
    rw [hnil, value] at hread
    cases hread
  · rw [hread]
    rfl

end Json
end CrossCompiler
