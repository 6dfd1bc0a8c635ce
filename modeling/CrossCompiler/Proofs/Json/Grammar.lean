import CrossCompiler.Proofs.Json.Indented
import CrossCompiler.Proofs.Json.Scalar

/-!
# The grammar of JSON, and what is read of a text

The texts of JSON values, with the value each stands for.  The reader takes exactly such a text
off the front of what it reads, as long as arrays and objects are not nested too deep in it.
Entries of arrays and members of objects are listed in the same way, so this is shown once for
any kind of entry.
-/

namespace CrossCompiler
namespace Json

open Utf8

/-!
## White space
-/

/-- White space, or nothing. -/
def Blanks (t : List Symbol) : Prop := ∀ s ∈ t, isBlank s = true

theorem exists_blanks (s : List Symbol) : ∃ b, Blanks b ∧ s = b ++ skipBlanks s :=
  ⟨s.takeWhile isBlank, fun _ => List.mem_takeWhile_imp, List.takeWhile_append_dropWhile.symm⟩

theorem skipBlanks_append {b rest : List Symbol} (hb : Blanks b)
    (hrest : ∀ s ∈ rest.head?, isBlank s = false) : skipBlanks (b ++ rest) = rest :=
  dropWhile_append_eq hb hrest

theorem skipBlanks_append_cons {b : List Symbol} (hb : Blanks b) {x : Symbol}
    (hx : isBlank x = false) (rest : List Symbol) : skipBlanks (b ++ x :: rest) = x :: rest := by
  refine skipBlanks_append hb ?_
  intro s hs
  obtain rfl := Option.some.inj hs
  exact hx

/-- Behind white space and a separator stands a separator. -/
theorem exists_separator {b : List Symbol} (hb : Blanks b) {x : Symbol}
    (hx : isSeparator x = true) (rest : List Symbol) :
    ∃ y behind, b ++ x :: rest = y :: behind ∧ isSeparator y = true := by
  cases b with
  | nil => exact ⟨x, rest, rfl, hx⟩
  | cons y b =>
      refine ⟨y, b ++ x :: rest, rfl, ?_⟩
      simp [isSeparator, hb y List.mem_cons_self]

/-!
## Entries in a list
-/

/-- One or more entries with commas between them and white space around each. -/
inductive ListText {α : Type} (Entry : List Symbol → α → Prop) : List Symbol → List α → Prop
  | last {b t b' : List Symbol} {a : α} (before : Blanks b) (entry : Entry t a)
      (behind : Blanks b') : ListText Entry (b ++ (t ++ b')) [a]
  | more {b t b' ts : List Symbol} {a : α} {others : List α} (before : Blanks b)
      (entry : Entry t a) (behind : Blanks b') (tail : ListText Entry ts others) :
      ListText Entry (b ++ (t ++ (b' ++ .char ',' :: ts))) (a :: others)

/-- Brackets around entries, or around white space only. -/
inductive BracketText {α : Type} (opening close : Char) (Entry : List Symbol → α → Prop) :
    List Symbol → List α → Prop
  | empty {b : List Symbol} (blanks : Blanks b) :
      BracketText opening close Entry (.char opening :: (b ++ [.char close])) []
  | entries {t : List Symbol} {found : List α} (list : ListText Entry t found) :
      BracketText opening close Entry (.char opening :: (t ++ [.char close])) found

/-- A reader takes the texts of a grammar off the front, and nothing else, wherever a separator
follows. -/
structure Reader.Exact {α : Type} (read : Reader α) (Text : List Symbol → α → Prop) : Prop where
  sound : ∀ {s rest a}, read s = .ok (a, rest) → ∃ t, s = t ++ rest ∧ Text t a
  complete : ∀ {t a x rest}, Text t a → isSeparator x = true →
    read (t ++ x :: rest) = .ok (a, x :: rest)
  solid : ∀ {t a}, Text t a → ∃ x tail, t = x :: tail ∧ isSeparator x = false

section Lists

variable {α : Type} {Entry : List Symbol → α → Prop} {entry : Reader α} {close : Char}
  {context : Context}

theorem ListText.blanks_append {b t : List Symbol} {found : List α} (hb : Blanks b)
    (h : ListText Entry t found) : ListText Entry (b ++ t) found := by
  cases h with
  | last before entry behind =>
      rw [← List.append_assoc]
      exact .last (List.forall_mem_append.2 ⟨hb, before⟩) entry behind
  | more before entry behind tail =>
      rw [← List.append_assoc]
      exact .more (List.forall_mem_append.2 ⟨hb, before⟩) entry behind tail

theorem series_sound (hentry : entry.Exact Entry) {fuel : Nat} {s rest : List Symbol}
    {found : List α} (h : series entry close context fuel s = .ok (found, rest)) :
    ∃ t, s = t ++ .char close :: rest ∧ ListText Entry t found := by
  induction fuel generalizing s found with
  | zero => cases h
  | succ fuel ih =>
      rw [series] at h
      obtain ⟨⟨first, behind⟩, hfirst, hrest⟩ := bind_eq_ok_iff.1 h
      obtain ⟨t, rfl, ht⟩ := hentry.sound hfirst
      obtain ⟨b, hb, hbehind⟩ := exists_blanks behind
      have hnone : Blanks [] := List.forall_mem_nil _
      dsimp only at hrest
      split at hrest
      · cases hrest
      · next next left hskip =>
        rw [hskip] at hbehind
        split_ifs at hrest with hclose hcomma
        · obtain ⟨rfl, rfl⟩ := Prod.mk.inj (Except.ok.inj hrest)
          refine ⟨t ++ b, ?_, .last hnone ht hb⟩
          rw [hbehind, hclose, List.append_assoc]
        · obtain ⟨⟨others, left'⟩, hothers, hfound⟩ := bind_eq_ok_iff.1 hrest
          obtain ⟨rfl, rfl⟩ := Prod.mk.inj (Except.ok.inj hfound)
          obtain ⟨b', hb', hleft⟩ := exists_blanks left
          obtain ⟨ts, hts, htail⟩ := ih hothers
          refine ⟨t ++ (b ++ .char ',' :: (b' ++ ts)), ?_,
            .more hnone ht hb (htail.blanks_append hb')⟩
          rw [hbehind, hcomma, hleft, hts]
          simp

/-- There are no more entries than symbols, so the length of the text is fuel enough. -/
theorem ListText.length_le (hentry : entry.Exact Entry) {t : List Symbol} {found : List α}
    (h : ListText Entry t found) (rest : List Symbol) :
    found.length ≤ (skipBlanks (t ++ rest)).length := by
  induction h with
  | last before text behind =>
      obtain ⟨x, tail, rfl, hx⟩ := hentry.solid text
      rw [List.append_assoc, List.cons_append, List.cons_append,
        skipBlanks_append_cons before (isBlank_eq_false hx)]
      simp
  | @more b t b' ts a others before text behind list ih =>
      obtain ⟨x, tail, rfl, hx⟩ := hentry.solid text
      have hshorter : (skipBlanks (ts ++ rest)).length ≤ (ts ++ rest).length :=
        (List.dropWhile_sublist _).length_le
      rw [List.append_assoc, List.cons_append, List.cons_append,
        skipBlanks_append_cons before (isBlank_eq_false hx)]
      simp only [List.length_cons, List.length_append] at hshorter ih ⊢
      omega

theorem ListText.head?_skipBlanks (hentry : entry.Exact Entry) {t : List Symbol} {found : List α}
    (h : ListText Entry t found) (rest : List Symbol) :
    ∃ x, (skipBlanks (t ++ rest)).head? = some x ∧ isSeparator x = false := by
  cases h with
  | last before text behind =>
      obtain ⟨x, tail, rfl, hx⟩ := hentry.solid text
      refine ⟨x, ?_, hx⟩
      rw [List.append_assoc, List.cons_append, List.cons_append,
        skipBlanks_append_cons before (isBlank_eq_false hx), List.head?_cons]
  | more before text behind tail =>
      obtain ⟨x, tail, rfl, hx⟩ := hentry.solid text
      refine ⟨x, ?_, hx⟩
      rw [List.append_assoc, List.cons_append, List.cons_append,
        skipBlanks_append_cons before (isBlank_eq_false hx), List.head?_cons]

theorem series_complete (hentry : entry.Exact Entry) (hclose : close ≠ ',')
    (hseparator : isSeparator (.char close) = true) (hvisible : isBlank (.char close) = false)
    {t : List Symbol} {found : List α} (h : ListText Entry t found) {fuel : Nat}
    (hfuel : found.length ≤ fuel) (rest : List Symbol) :
    series entry close context fuel (skipBlanks (t ++ .char close :: rest)) =
      .ok (found, rest) := by
  -- Each entry is read up to the separator behind it, whichever that is.
  have hread : ∀ {b t b' : List Symbol} {a : α} {x : Symbol} (left : List Symbol), Blanks b →
      Entry t a → Blanks b' → isSeparator x = true →
      ∃ s, skipBlanks (b ++ (t ++ (b' ++ x :: left))) = s ∧
        entry s = .ok (a, b' ++ x :: left) := by
    intro b t b' a x left hb ht hb' hx
    obtain ⟨y, behind, hy, hseparates⟩ := exists_separator hb' hx left
    obtain ⟨z, tail, rfl, hz⟩ := hentry.solid ht
    refine ⟨_, skipBlanks_append_cons hb (isBlank_eq_false hz) _, ?_⟩
    rw [hy]
    exact hentry.complete ht hseparates
  induction h generalizing fuel with
  | @last b t b' a before text behind =>
      obtain ⟨fuel, rfl⟩ : ∃ n, fuel = n + 1 := Nat.exists_eq_add_one_of_ne_zero (by grind)
      obtain ⟨s, hs, hentry⟩ := hread rest before text behind hseparator
      rw [List.append_assoc, List.append_assoc, hs]
      exact series_last hentry (skipBlanks_append_cons behind hvisible rest)
  | @more b t b' ts a others before text behind list ih =>
      obtain ⟨fuel, rfl⟩ : ∃ n, fuel = n + 1 := Nat.exists_eq_add_one_of_ne_zero (by grind)
      obtain ⟨s, hs, hentry⟩ :=
        hread (x := .char ',') (ts ++ .char close :: rest) before text behind rfl
      rw [List.append_assoc, List.append_assoc, List.append_assoc, List.cons_append, hs]
      refine series_more hclose hentry (skipBlanks_append_cons behind rfl _) ?_
      exact ih (Nat.le_of_succ_le_succ hfuel)

theorem bracketed_sound (hentry : entry.Exact Entry) {s rest : List Symbol} {found : List α}
    (h : bracketed entry close context s = .ok (found, rest)) (opening : Char) :
    ∃ t, .char opening :: s = t ++ rest ∧ BracketText opening close Entry t found := by
  obtain ⟨b, hb, hs⟩ := exists_blanks s
  rw [bracketed] at h
  split_ifs at h with hclose
  · obtain ⟨rfl, rfl⟩ := Prod.mk.inj (Except.ok.inj h)
    refine ⟨_, ?_, .empty hb⟩
    rw [List.cons_append, List.append_assoc, List.singleton_append, List.cons_head?_tail hclose,
      ← hs]
  · obtain ⟨t, ht, hlist⟩ := series_sound hentry h
    refine ⟨_, ?_, .entries (hlist.blanks_append hb)⟩
    rw [hs, ht]
    simp

theorem bracketed_complete (hentry : entry.Exact Entry) (hcomma : close ≠ ',')
    (hseparator : isSeparator (.char close) = true) (hvisible : isBlank (.char close) = false)
    {opening : Char} {t : List Symbol} {found : List α}
    (h : BracketText opening close Entry t found) : ∃ body, t = .char opening :: body ∧
      ∀ rest, bracketed entry close context (body ++ rest) = .ok (found, rest) := by
  cases h with
  | @empty b blanks =>
      refine ⟨_, rfl, fun rest => ?_⟩
      rw [List.append_assoc, bracketed, List.singleton_append,
        skipBlanks_append_cons blanks hvisible, if_pos List.head?_cons, List.tail_cons]
  | @entries t found list =>
      refine ⟨_, rfl, fun rest => ?_⟩
      have hlength := list.length_le hentry (.char close :: rest)
      rw [List.append_assoc, List.singleton_append, bracketed, if_neg]
      · exact series_complete hentry hcomma hseparator hvisible list (by omega) rest
      · -- What stands first is an entry, and no entry begins with a separator.
        intro hclose
        obtain ⟨x, hfirst, hx⟩ := list.head?_skipBlanks hentry (.char close :: rest)
        obtain rfl := Option.some.inj (hclose.symm.trans hfirst)
        rw [hseparator] at hx
        cases hx

end Lists

/-!
## Values
-/

/-- A member of an object: its name between quotes, a colon and its value. -/
inductive MemberText (Inner : List Symbol → Value → Prop) : List Symbol → List Char × Value → Prop
  | mk {n b b' t : List Symbol} {name : List Char} {v : Value} (named : StringText n name)
      (before : Blanks b) (behind : Blanks b') (inner : Inner t v) :
      MemberText Inner (.char '"' :: (n ++ .char '"' :: (b ++ .char ':' :: (b' ++ t)))) (name, v)

/-- The text of a value, given the texts of the values inside of it. -/
inductive ValueText (Inner : List Symbol → Value → Prop) : List Symbol → Value → Prop
  | scalar {t : List Symbol} {v : Value} (text : ScalarText t v) : ValueText Inner t v
  | array {t : List Symbol} {found : List Value} (elements : BracketText '[' ']' Inner t found) :
      ValueText Inner t (.array found)
  | object {t : List Symbol} {found : List (List Char × Value)}
      (members : BracketText '\x7b' '\x7d' (MemberText Inner) t found) :
      ValueText Inner t (.object found)

/-- The texts of values in which arrays and objects are nested at most `depth` deep. -/
def NestedText : (depth : Nat) → List Symbol → Value → Prop
  | 0 => ScalarText
  | depth + 1 => ValueText (NestedText depth)

theorem NestedText.of_scalar {depth : Nat} {t : List Symbol} {v : Value} (h : ScalarText t v) :
    NestedText depth t v := by
  cases depth with
  | zero => exact h
  | succ depth => exact .scalar h

section Inner

variable {α : Type} {Inner : List Symbol → Value → Prop} {read : Reader Value}

theorem key_sound {s rest : List Symbol} {name : List Char} (h : key s = .ok (name, rest)) :
    ∃ n b b', s = .char '"' :: (n ++ .char '"' :: (b ++ .char ':' :: (b' ++ rest))) ∧
      StringText n name ∧ Blanks b ∧ Blanks b' := by
  cases s with
  | nil => cases h
  | cons x s =>
      rw [key] at h
      split_ifs at h with hx
      obtain ⟨⟨cs, behind⟩, hstring, hcolon⟩ := bind_eq_ok_iff.1 h
      obtain ⟨n, rfl, hn⟩ := string_sound hstring
      obtain ⟨b, hb, hbehind⟩ := exists_blanks behind
      dsimp only at hcolon
      split at hcolon
      · cases hcolon
      · next next left hskip =>
        rw [hskip] at hbehind
        split_ifs at hcolon with hnext
        obtain ⟨rfl, rfl⟩ := Prod.mk.inj (Except.ok.inj hcolon)
        obtain ⟨b', hb', hleft⟩ := exists_blanks left
        exact ⟨n, b, b', by rw [hx, hbehind, hnext, ← hleft], hn, hb, hb'⟩

theorem key_complete {n b b' : List Symbol} {name : List Char} (hn : StringText n name)
    (hb : Blanks b) (hb' : Blanks b') {x : Symbol} (hx : isBlank x = false)
    (rest : List Symbol) :
    key (.char '"' :: (n ++ .char '"' :: (b ++ .char ':' :: (b' ++ x :: rest)))) =
      .ok (name, x :: rest) := by
  rw [key, if_pos rfl]
  refine bind_eq_ok_iff.2 ⟨_, string_complete hn _, ?_⟩
  dsimp only
  rw [skipBlanks_append_cons hb rfl]
  dsimp only
  rw [if_pos rfl, skipBlanks_append_cons hb' hx]
  rfl

/-- Members are read exactly if their values are. -/
theorem member_exact (h : read.Exact Inner) : Reader.Exact (member read) (MemberText Inner) where
  sound := by
    intro s rest found hread
    obtain ⟨⟨name, behind⟩, hkey, hvalue⟩ := bind_eq_ok_iff.1 hread
    obtain ⟨⟨v, left⟩, hv, hfound⟩ := bind_eq_ok_iff.1 hvalue
    obtain ⟨rfl, rfl⟩ := Prod.mk.inj (Except.ok.inj hfound)
    obtain ⟨n, b, b', rfl, hn, hb, hb'⟩ := key_sound hkey
    obtain ⟨t, rfl, ht⟩ := h.sound hv
    exact ⟨_, by simp, .mk hn hb hb' ht⟩
  complete := by
    intro t found x rest ht hx
    obtain ⟨named, before, behind, inner⟩ := ht
    obtain ⟨y, tail, rfl, hy⟩ := h.solid inner
    have hvalue : read (_ ++ x :: rest) = _ := h.complete inner hx
    simp only [List.cons_append, List.append_assoc] at hvalue ⊢
    refine bind_eq_ok_iff.2 ⟨_, key_complete named before behind (isBlank_eq_false hy) _, ?_⟩
    exact bind_eq_ok_iff.2 ⟨_, hvalue, rfl⟩
  solid := by
    intro t found ht
    obtain ⟨⟩ := ht
    exact ⟨_, _, rfl, rfl⟩

end Inner

section Depth

variable {depth : Nat} {s t rest : List Symbol} {v : Value}

theorem value_succ_sound (hinner : (value depth).Exact (NestedText depth))
    (h : value (depth + 1) s = .ok (v, rest)) :
    ∃ t, s = t ++ rest ∧ NestedText (depth + 1) t v := by
  cases s with
  | nil => cases h
  | cons x s =>
      by_cases hbracket : x = .char '['
      · subst hbracket
        rw [value_array] at h
        obtain ⟨⟨found, behind⟩, hread, hvalue⟩ := bind_eq_ok_iff.1 h
        obtain ⟨rfl, rfl⟩ := Prod.mk.inj (Except.ok.inj hvalue)
        obtain ⟨t, ht, htext⟩ := bracketed_sound hinner hread '['
        exact ⟨t, ht, .array htext⟩
      by_cases hbrace : x = .char '\x7b'
      · subst hbrace
        rw [value_object] at h
        obtain ⟨⟨found, behind⟩, hread, hvalue⟩ := bind_eq_ok_iff.1 h
        obtain ⟨rfl, rfl⟩ := Prod.mk.inj (Except.ok.inj hvalue)
        obtain ⟨t, ht, htext⟩ := bracketed_sound (member_exact hinner) hread '\x7b'
        exact ⟨t, ht, .object htext⟩
      · rw [value_scalar hbracket hbrace] at h
        obtain ⟨t, ht, htext⟩ := scalar_sound h
        exact ⟨t, ht, .scalar htext⟩

theorem value_of_scalarText (h : ScalarText t v) (hrest : EndsValue v rest) :
    value depth (t ++ rest) = .ok (v, rest) := by
  obtain ⟨x, tail, rfl, -, hbracket, hbrace, hscalar⟩ := h.exists_first
  rw [List.cons_append, value_scalar hbracket hbrace]
  exact hscalar hrest

theorem value_succ_complete (hinner : (value depth).Exact (NestedText depth))
    (h : NestedText (depth + 1) t v) (hrest : EndsValue v rest) :
    value (depth + 1) (t ++ rest) = .ok (v, rest) := by
  cases h with
  | scalar text => exact value_of_scalarText text hrest
  | array elements =>
      obtain ⟨body, rfl, hbody⟩ := bracketed_complete hinner (by decide) rfl rfl elements
      rw [List.cons_append, value_array, hbody]
      rfl
  | object members =>
      obtain ⟨body, rfl, hbody⟩ :=
        bracketed_complete (member_exact hinner) (by decide) rfl rfl members
      rw [List.cons_append, value_object, hbody]
      rfl

theorem endsValue_of_isSeparator {x : Symbol} (h : isSeparator x = true) (v : Value)
    (rest : List Symbol) : EndsValue v (x :: rest) := by
  rintro cs - s hs
  obtain rfl := Option.some.inj hs
  simp only [isSeparator, isBlank, Bool.or_eq_true, decide_eq_true_eq] at h
  rcases h with (((((rfl | rfl) | rfl) | rfl) | rfl) | rfl) | rfl <;> rfl

theorem NestedText.exists_first (h : NestedText depth t v) :
    ∃ x tail, t = x :: tail ∧ isSeparator x = false := by
  have hscalar : ∀ {t v}, ScalarText t v → ∃ x tail, t = x :: tail ∧ isSeparator x = false := by
    intro t v h
    obtain ⟨x, tail, ht, hx, -⟩ := h.exists_first
    exact ⟨x, tail, ht, hx⟩
  cases depth with
  | zero => exact hscalar h
  | succ depth =>
      cases h with
      | scalar text => exact hscalar text
      | array elements => cases elements <;> exact ⟨_, _, rfl, rfl⟩
      | object members => cases members <;> exact ⟨_, _, rfl, rfl⟩

theorem NestedText.exists_last (h : NestedText depth t v) : ∃ front c, t = front ++ [.char c] := by
  cases depth with
  | zero => exact ScalarText.exists_last h
  | succ depth =>
      cases h with
      | scalar text => exact text.exists_last
      | array elements => cases elements <;> exact ⟨_ :: _, ']', rfl⟩
      | object members => cases members <;> exact ⟨_ :: _, '\x7d', rfl⟩

end Depth

/-- A value is read exactly, up to the depth that the reader goes to. -/
theorem value_exact (depth : Nat) : (value depth).Exact (NestedText depth) := by
  induction depth with
  | zero =>
      refine ⟨?_, ?_, NestedText.exists_first⟩
      · intro s rest v h
        cases s with
        | nil => cases h
        | cons x s =>
            rw [value] at h
            split_ifs at h
            exact scalar_sound h
      · intro t v x rest h hx
        exact value_of_scalarText h (endsValue_of_isSeparator hx v rest)
  | succ depth ih =>
      refine ⟨value_succ_sound ih, ?_, NestedText.exists_first⟩
      intro t v x rest h hx
      exact value_succ_complete ih h (endsValue_of_isSeparator hx v rest)

theorem value_complete {depth : Nat} {t rest : List Symbol} {v : Value} (h : NestedText depth t v)
    (hrest : EndsValue v rest) : value depth (t ++ rest) = .ok (v, rest) := by
  cases depth with
  | zero => exact value_of_scalarText h hrest
  | succ depth => exact value_succ_complete (value_exact depth) h hrest

/-!
## Texts of any depth
-/

/-- The text of a value. -/
def JsonText (t : List Symbol) (v : Value) : Prop := ∃ depth, NestedText depth t v

/-- Arrays and objects are nested at most `depth` deep in a value. -/
def Value.FitsIn : (depth : Nat) → Value → Prop
  | 0, .array _ => False
  | 0, .object _ => False
  | depth + 1, .array found => ∀ v ∈ found, v.FitsIn depth
  | depth + 1, .object found => ∀ m ∈ found, m.2.FitsIn depth
  | _, _ => True

section Change

variable {α : Type} {Entry Entry' : List Symbol → α → Prop} {t : List Symbol} {found : List α}

theorem ListText.imp (h : ListText Entry t found)
    (himp : ∀ a ∈ found, ∀ t, Entry t a → Entry' t a) : ListText Entry' t found := by
  induction h with
  | last before text behind => exact .last before (himp _ List.mem_cons_self _ text) behind
  | more before text behind list ih =>
      rw [List.forall_mem_cons] at himp
      exact .more before (himp.1 _ text) behind (ih himp.2)

theorem BracketText.imp {opening close : Char} (h : BracketText opening close Entry t found)
    (himp : ∀ a ∈ found, ∀ t, Entry t a → Entry' t a) :
    BracketText opening close Entry' t found := by
  cases h with
  | empty blanks => exact .empty blanks
  | entries list => exact .entries (list.imp himp)

end Change

/-- How deep the values of a text are nested can be told from the value it stands for. -/
theorem NestedText.of_fitsIn {depth depth' : Nat} {t : List Symbol} {v : Value}
    (h : NestedText depth' t v) (hfits : v.FitsIn depth) : NestedText depth t v := by
  induction depth generalizing depth' t v with
  | zero =>
      cases depth' with
      | zero => exact h
      | succ depth' =>
          cases h with
          | scalar text => exact text
          | array elements => cases hfits
          | object members => cases hfits
  | succ depth ih =>
      cases depth' with
      | zero => exact .of_scalar h
      | succ depth' =>
          cases h with
          | scalar text => exact .of_scalar text
          | array elements =>
              exact .array (elements.imp fun v hv t ht => ih ht (hfits v hv))
          | object members =>
              refine .object (members.imp fun m hm t ht => ?_)
              obtain ⟨named, before, behind, inner⟩ := ht
              exact .mk named before behind (ih inner (hfits _ hm))

theorem isValid_of_blanks {b : Bytes} (h : Blanks (symbols b)) : isValid b = true := by
  refine List.all_eq_true.2 fun s hs => ?_
  have hblank := h s hs
  cases s with
  | char c => rfl
  | stray b => cases hblank

/-- A byte string that is read begins, behind white space, with the text of what is read. -/
theorem readFirst_sound {content : Bytes} {v : Value} (h : readFirst content = .ok v) :
    ∃ blanks written rest, content = blanks ++ (written ++ rest) ∧ Blanks (symbols blanks) ∧
      JsonText (symbols written) v := by
  obtain ⟨b, hb, hcontent⟩ := exists_blanks (symbols content)
  have hread : ∃ rest, value depthLimit (skipBlanks (symbols content)) = .ok (v, rest) := by
    unfold readFirst at h
    split at h
    · cases h
    · cases hvalue : value depthLimit (skipBlanks (symbols content)) with
      | error failure => simp [hvalue, Except.map] at h
      | ok found =>
          rw [hvalue] at h
          obtain rfl := Except.ok.inj h
          exact ⟨found.2, rfl⟩
  obtain ⟨rest, hread⟩ := hread
  obtain ⟨t, ht, htext⟩ := (value_exact depthLimit).sound hread
  rw [ht] at hcontent
  obtain ⟨hblanks, hbehind⟩ := symbols_cut hcontent
  obtain ⟨hwritten, -⟩ := symbols_cut hbehind
  refine ⟨b.flatMap Symbol.bytes, t.flatMap Symbol.bytes, rest.flatMap Symbol.bytes, ?_, ?_, ?_⟩
  · rw [← List.flatMap_append, ← List.flatMap_append, ← hcontent, flatMap_bytes_symbols]
  · rwa [hblanks]
  · rw [hwritten]
    exact ⟨depthLimit, htext⟩

/-- Behind white space the text of a value is reached whole, whatever follows it. -/
theorem skipBlanks_symbols {depth : Nat} {blanks written : Bytes} {v : Value}
    (hb : Blanks (symbols blanks)) (h : NestedText depth (symbols written) v) (rest : Bytes) :
    skipBlanks (symbols (blanks ++ (written ++ rest))) = symbols written ++ symbols rest := by
  obtain ⟨front, c, hlast⟩ := h.exists_last
  obtain ⟨x, tail, hfirst, hx⟩ := h.exists_first
  have hsymbols : symbols (blanks ++ (written ++ rest)) =
      symbols blanks ++ (symbols written ++ symbols rest) := by
    rw [symbols_append (isValid_of_blanks hb), symbols_append_of_last hlast]
  rw [hsymbols, hfirst, List.cons_append]
  exact skipBlanks_append_cons hb (isBlank_eq_false hx) _

/-- The text of a value is read, behind white space and in front of anything that lets the value
end there. -/
theorem readFirst_complete {blanks written rest : Bytes} {v : Value} (hb : Blanks (symbols blanks))
    (h : JsonText (symbols written) v) (hfits : v.FitsIn depthLimit)
    (hrest : EndsValue v (symbols rest)) : readFirst (blanks ++ (written ++ rest)) = .ok v := by
  obtain ⟨depth, hdepth⟩ := h
  have htext : NestedText depthLimit (symbols written) v := hdepth.of_fitsIn hfits
  have hread := value_complete htext hrest
  rw [readFirst, skipBlanks_symbols hb htext]
  split
  · next hnil =>
    rw [hnil] at hread
    cases hread
  · rw [hread]
    rfl

end Json
end CrossCompiler
