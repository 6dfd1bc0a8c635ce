import Mathlib
import CrossCompiler.Path

/-!
# Where a path leads

A path is resolved one element at a time, and its clean form is what the resolved elements
spell.  So nothing is lost by cleaning a path before it is resolved: the elements of its clean
form lead from any directory to where its own elements lead.  From that follows where the last
element of a path stands: in the directory that the rest of the path leads to.
-/

namespace CrossCompiler

namespace Bytes

theorem split_ne_nil (separator : UInt8) (s : Bytes) : split separator s ≠ [] := by
  cases s with
  | nil => exact List.cons_ne_nil _ _
  | cons b rest =>
      rw [split]
      split_ifs
      · exact List.cons_ne_nil _ _
      · split <;> exact List.cons_ne_nil _ _

/-- A separator ends the part in front of it and begins the one behind it. -/
theorem split_append (separator : UInt8) (s t : Bytes) :
    split separator (s ++ separator :: t) = split separator s ++ split separator t := by
  induction s with
  | nil => simp [split]
  | cons b rest ih =>
      rw [List.cons_append, split, split, ih]
      by_cases hb : b = separator
      · rw [if_pos hb, if_pos hb, List.cons_append]
      · rw [if_neg hb, if_neg hb]
        cases hparts : split separator rest with
        | nil => exact absurd hparts (split_ne_nil separator rest)
        | cons part parts => rfl

theorem split_of_not_mem {separator : UInt8} {s : Bytes} (h : separator ∉ s) :
    split separator s = [s] := by
  induction s with
  | nil => rfl
  | cons b rest ih =>
      obtain ⟨hb, hrest⟩ := not_or.1 (mt List.mem_cons.2 h)
      rw [split, if_neg (Ne.symm hb), ih hrest]

theorem not_mem_of_mem_split {separator : UInt8} {s part : Bytes}
    (h : part ∈ split separator s) : separator ∉ part := by
  induction s generalizing part with
  | nil =>
      obtain rfl : part = [] := by simpa [split] using h
      exact List.not_mem_nil
  | cons b rest ih =>
      rw [split] at h
      by_cases hb : b = separator
      · rw [if_pos hb] at h
        rcases List.mem_cons.1 h with rfl | h
        · exact List.not_mem_nil
        · exact ih h
      · rw [if_neg hb] at h
        cases hparts : split separator rest with
        | nil => exact absurd hparts (split_ne_nil separator rest)
        | cons first parts =>
            rw [hparts] at h ih
            rcases List.mem_cons.1 h with rfl | h
            · have hfirst : separator ∉ first := ih List.mem_cons_self
              simp [Ne.symm hb, hfirst]
            · exact ih (List.mem_cons_of_mem _ h)

end Bytes

namespace Path

/-!
## The text in front of the last element
-/

theorem parentText_append_final (p : Bytes) : parentText p ++ final p = p := by
  have hsplit := List.takeWhile_append_dropWhile (p := (· ≠ slash)) (l := p.reverse)
  have hback := congrArg List.reverse hsplit
  rwa [List.reverse_append, List.reverse_reverse] at hback

theorem slash_not_mem_final (p : Bytes) : slash ∉ final p := by
  intro hmem
  have hne := List.mem_takeWhile_imp (List.mem_reverse.1 hmem)
  simp at hne

/-- The text in front of the last element is empty or ends in a slash. -/
theorem parentText_eq (p : Bytes) :
    parentText p = [] ∨ ∃ above, parentText p = above ++ [slash] := by
  unfold parentText
  cases hrest : p.reverse.dropWhile (· ≠ slash) with
  | nil => exact .inl rfl
  | cons b rest =>
      have hhead := List.head?_dropWhile_not (· ≠ slash) p.reverse
      rw [hrest] at hhead
      obtain rfl : b = slash := by simpa using hhead
      exact .inr ⟨rest.reverse, List.reverse_cons⟩

theorem parentText_append {e : Bytes} (h : slash ∉ e) (p : Bytes) :
    parentText (p ++ e) = parentText p := by
  have hskip : ∀ b ∈ e.reverse, decide (b ≠ slash) = true := by
    intro b hb
    simpa using fun heq : b = slash => h (heq ▸ List.mem_reverse.1 hb)
  rw [parentText, List.reverse_append, List.dropWhile_append_of_pos hskip, parentText]

theorem parentText_slash (above : Bytes) : parentText (above ++ [slash]) = above ++ [slash] := by
  rw [parentText, List.reverse_append, List.reverse_singleton, List.singleton_append,
    List.dropWhile_cons_of_neg (by simp), List.reverse_cons, List.reverse_reverse]

theorem final_append {e : Bytes} (h : slash ∉ e) (p : Bytes) : final (p ++ e) = final p ++ e := by
  have htake : ∀ b ∈ e.reverse, decide (b ≠ slash) = true := by
    intro b hb
    simpa using fun heq : b = slash => h (heq ▸ List.mem_reverse.1 hb)
  rw [final, List.reverse_append, List.takeWhile_append_of_pos htake, List.reverse_append,
    List.reverse_reverse, final]

theorem final_parentText (p : Bytes) : final (parentText p) = [] := by
  rcases parentText_eq p with hnil | ⟨above, habove⟩
  · rw [hnil]
    rfl
  · rw [habove, final]
    simp

theorem parentText_parentText (p : Bytes) : parentText (parentText p) = parentText p := by
  have hsplit := parentText_append_final (parentText p)
  rwa [final_parentText, List.append_nil] at hsplit

/-- The last part of a path that is split is what follows the last slash. -/
theorem exists_split_eq (p : Bytes) : ∃ front, Bytes.split slash p = front ++ [final p] := by
  have hp := parentText_append_final p
  have hfinal := Bytes.split_of_not_mem (slash_not_mem_final p)
  rcases parentText_eq p with hnil | ⟨above, habove⟩
  · rw [hnil, List.nil_append] at hp
    exact ⟨[], by rw [List.nil_append, ← hfinal, hp]⟩
  · rw [habove, List.append_assoc, List.singleton_append] at hp
    refine ⟨Bytes.split slash above, ?_⟩
    conv_lhs => rw [← hp]
    rw [Bytes.split_append, hfinal]

/-!
## Elements
-/

/-- What can stand between two slashes and carries meaning. -/
structure IsElement (e : Bytes) : Prop where
  ne_nil : e ≠ []
  ne_dot : e ≠ [dot]
  slash_not_mem : slash ∉ e

/-- An element that stays where it is put: it does not go up. -/
structure IsName (e : Bytes) : Prop extends IsElement e where
  ne_up : e ≠ up

theorem isElement_of_mem {p e : Bytes} (h : e ∈ elements p) : IsElement e := by
  obtain ⟨hsplit, hkept⟩ := List.mem_filter.1 h
  obtain ⟨hnil, hdot⟩ : e ≠ [] ∧ e ≠ [dot] := by simpa using hkept
  exact ⟨hnil, hdot, Bytes.not_mem_of_mem_split hsplit⟩

theorem elements_append (p q : Bytes) : elements (p ++ slash :: q) = elements p ++ elements q := by
  rw [elements, Bytes.split_append, List.filter_append, elements, elements]

theorem elements_of_isElement {e : Bytes} (h : IsElement e) : elements e = [e] := by
  rw [elements, Bytes.split_of_not_mem h.slash_not_mem]
  simp [h.ne_nil, h.ne_dot]

theorem elements_nil : elements [] = [] := rfl

/-- The text of the path from the root through some elements. -/
def fromRoot (es : List Bytes) : Bytes := es.flatMap (slash :: ·)

theorem fromRoot_append_singleton (es : List Bytes) (e : Bytes) :
    fromRoot (es ++ [e]) = fromRoot es ++ slash :: e := by
  simp [fromRoot]

theorem elements_fromRoot {es : List Bytes} (h : ∀ e ∈ es, IsElement e) :
    elements (fromRoot es) = es := by
  induction es using List.reverseRecOn with
  | nil => rfl
  | append_singleton es e ih =>
      have hfront : elements (fromRoot es) = es :=
        ih fun e he => h e (List.mem_append_left _ he)
      have hlast : IsElement e := h e (List.mem_append_right _ List.mem_cons_self)
      rw [fromRoot_append_singleton, elements_append, hfront, elements_of_isElement hlast]

theorem slash_cons_join {es : List Bytes} (h : es ≠ []) :
    slash :: Bytes.join [slash] es = fromRoot es := by
  induction es with
  | nil => exact absurd rfl h
  | cons e rest ih =>
      cases rest with
      | nil => simp [Bytes.join, fromRoot]
      | cons f rest =>
          have hrest := ih (List.cons_ne_nil _ _)
          rw [Bytes.join, List.append_assoc, List.singleton_append, hrest]
          · simp [fromRoot]
          · exact List.cons_ne_nil _ _

theorem elements_slash_cons (q : Bytes) : elements (slash :: q) = elements q :=
  elements_append [] q

theorem elements_join {es : List Bytes} (h : ∀ e ∈ es, IsElement e) :
    elements (Bytes.join [slash] es) = es := by
  by_cases hnil : es = []
  · rw [hnil]
    rfl
  · rw [← elements_slash_cons, slash_cons_join hnil, elements_fromRoot h]

theorem isRooted_cons (b : UInt8) (p : Bytes) : isRooted (b :: p) = decide (b = slash) := by
  simp [isRooted]

theorem isRooted_append {p : Bytes} (h : p ≠ []) (q : Bytes) :
    isRooted (p ++ q) = isRooted p := by
  obtain ⟨b, rest, rfl⟩ := List.exists_cons_of_ne_nil h
  rfl

theorem isRooted_of_slash_not_mem {p : Bytes} (h : slash ∉ p) : isRooted p = false := by
  cases p with
  | nil => rfl
  | cons b rest =>
      rw [isRooted_cons, decide_eq_false_iff_not]
      rintro rfl
      exact h List.mem_cons_self

/-!
## Resolving elements
-/

theorem push_name (rooted : Bool) {element : Bytes} (h : element ≠ up) (reversed : List Bytes) :
    push rooted reversed element = element :: reversed := by
  unfold push
  exact if_neg h

/-- A name and the way up from it cancel. -/
theorem push_up_of_name (rooted : Bool) {last : Bytes} (h : last ≠ up) (rest : List Bytes) :
    push rooted (last :: rest) up = rest := by
  unfold push
  rw [if_pos rfl]
  exact if_neg h

theorem push_up_of_up (rooted : Bool) (rest : List Bytes) :
    push rooted (up :: rest) up = up :: up :: rest := rfl

theorem push_up_nil (rooted : Bool) : push rooted [] up = if rooted then [] else [up] := rfl

theorem mem_push {rooted : Bool} {reversed : List Bytes} {element e : Bytes}
    (h : e ∈ push rooted reversed element) : e = element ∨ e ∈ reversed := by
  by_cases hup : element = up
  · subst hup
    cases reversed with
    | nil =>
        rw [push_up_nil] at h
        split_ifs at h
        · cases h
        · exact .inl (List.mem_singleton.1 h)
    | cons last rest =>
        by_cases hlast : last = up
        · subst hlast
          rw [push_up_of_up] at h
          exact List.mem_cons.1 h
        · rw [push_up_of_name rooted hlast] at h
          exact .inr (List.mem_cons_of_mem _ h)
  · rw [push_name rooted hup] at h
    exact List.mem_cons.1 h

theorem mem_foldl_push {rooted : Bool} {es reversed : List Bytes} {e : Bytes}
    (h : e ∈ es.foldl (push rooted) reversed) : e ∈ es ∨ e ∈ reversed := by
  induction es generalizing reversed with
  | nil => exact .inr h
  | cons first rest ih =>
      rcases ih h with hrest | hpush
      · exact .inl (List.mem_cons_of_mem _ hrest)
      · rcases mem_push hpush with rfl | hreversed
        · exact .inl List.mem_cons_self
        · exact .inr hreversed

/-- From the root nothing goes up. -/
theorem up_not_mem_push {reversed : List Bytes} (h : up ∉ reversed) (element : Bytes) :
    up ∉ push true reversed element := by
  by_cases hup : element = up
  · subst hup
    cases reversed with
    | nil => exact List.not_mem_nil
    | cons last rest =>
        obtain ⟨hlast, hrest⟩ := not_or.1 (mt List.mem_cons.2 h)
        rw [push_up_of_name true (Ne.symm hlast)]
        exact hrest
  · rw [push_name true hup]
    exact fun hmem => (List.mem_cons.1 hmem).elim (Ne.symm hup) h

theorem up_not_mem_foldl_push {reversed : List Bytes} (h : up ∉ reversed) (es : List Bytes) :
    up ∉ es.foldl (push true) reversed := by
  induction es generalizing reversed with
  | nil => exact h
  | cons first rest ih => exact ih (up_not_mem_push h first)

/-- Names are put one behind the other. -/
theorem foldl_push_names {es : List Bytes} (h : up ∉ es) (reversed : List Bytes) :
    es.foldl (push true) reversed = es.reverse ++ reversed := by
  induction es generalizing reversed with
  | nil => rfl
  | cons first rest ih =>
      obtain ⟨hfirst, hrest⟩ := not_or.1 (mt List.mem_cons.2 h)
      rw [List.foldl_cons, push_name true (Ne.symm hfirst), ih hrest, List.reverse_cons,
        List.append_assoc, List.singleton_append]

/-- One more element is resolved first, or only behind those that are there already.  What is
resolved from the root is not resolved from anywhere else. -/
theorem foldl_push_push {rooted : Bool} {base : List Bytes} (hbase : rooted = true → base = [])
    (reversed : List Bytes) (element : Bytes) :
    (push rooted reversed element).reverse.foldl (push true) base =
      push true (reversed.reverse.foldl (push true) base) element := by
  by_cases hup : element = up
  · subst hup
    cases reversed with
    | nil =>
        cases rooted with
        | true =>
            obtain rfl := hbase rfl
            rfl
        | false => rfl
    | cons last rest =>
        by_cases hlast : last = up
        · subst hlast
          rw [push_up_of_up, List.reverse_cons, List.foldl_append]
          rfl
        -- A name is on top on both sides, so the way up takes it off on both.
        · rw [push_up_of_name rooted hlast, List.reverse_cons, List.foldl_append, List.foldl_cons,
            List.foldl_nil, push_name true hlast, push_up_of_name true hlast]
  · rw [push_name rooted hup, List.reverse_cons, List.foldl_append]
    rfl

/-- Resolving elements that have been resolved already leads where the elements lead. -/
theorem foldl_push_resolved {rooted : Bool} {base : List Bytes}
    (hbase : rooted = true → base = []) (es reversed : List Bytes) :
    (es.foldl (push rooted) reversed).reverse.foldl (push true) base =
      es.foldl (push true) (reversed.reverse.foldl (push true) base) := by
  induction es generalizing reversed with
  | nil => rfl
  | cons first rest ih =>
      rw [List.foldl_cons, ih, foldl_push_push hbase, List.foldl_cons]

/-!
## Clean paths
-/

/-- The elements of a path, resolved, last one first. -/
def resolved (p : Bytes) : List Bytes := (elements p).foldl (push (isRooted p)) []

theorem isElement_of_mem_resolved {p e : Bytes} (h : e ∈ resolved p) : IsElement e := by
  rcases mem_foldl_push h with hmem | hmem
  · exact isElement_of_mem hmem
  · cases hmem

theorem clean_of_rooted {p : Bytes} (h : isRooted p = true) :
    clean p = slash :: Bytes.join [slash] (resolved p).reverse := by
  simp only [clean, resolved, h, if_true]

theorem clean_of_not_rooted {p : Bytes} (h : isRooted p = false) :
    clean p = if resolved p = [] then [dot] else Bytes.join [slash] (resolved p).reverse := by
  simp only [clean, resolved, h, Bool.false_eq_true, if_false, List.reverse_eq_nil_iff]

theorem isRooted_clean (p : Bytes) : isRooted (clean p) = isRooted p := by
  cases hrooted : isRooted p with
  | true =>
      rw [clean_of_rooted hrooted, isRooted_cons]
      simp
  | false =>
      rw [clean_of_not_rooted hrooted]
      split_ifs with hnil
      · decide
      · -- The first element does not begin with a slash, as no element has one.
        obtain ⟨e, rest, hreverse⟩ :=
          List.exists_cons_of_ne_nil (mt List.reverse_eq_nil_iff.1 hnil)
        have he : IsElement e :=
          isElement_of_mem_resolved (List.mem_reverse.1 (hreverse ▸ List.mem_cons_self))
        have hfirst := isRooted_of_slash_not_mem he.slash_not_mem
        rw [hreverse]
        cases rest with
        | nil => exact hfirst
        | cons f rest =>
            rw [Bytes.join, List.append_assoc, isRooted_append he.ne_nil]
            · exact hfirst
            · exact List.cons_ne_nil _ _

/-- The elements of a clean path are the resolved ones. -/
theorem elements_clean (p : Bytes) : elements (clean p) = (resolved p).reverse := by
  have helements : ∀ e ∈ (resolved p).reverse, IsElement e := fun e he =>
    isElement_of_mem_resolved (List.mem_reverse.1 he)
  cases hrooted : isRooted p with
  | true => rw [clean_of_rooted hrooted, elements_slash_cons, elements_join helements]
  | false =>
      rw [clean_of_not_rooted hrooted]
      split_ifs with hnil
      · rw [hnil]
        decide
      · exact elements_join helements

/-!
## Paths seen from a working directory
-/

/-- The names from the root to where a path leads, last one first. -/
def trail (workingDirectory p : Bytes) : List Bytes :=
  (elements p).foldl (push true)
    (if isRooted p then [] else (elements workingDirectory).foldl (push true) [])

theorem absolute_eq {workingDirectory : Bytes} (h : isRooted workingDirectory = true) (p : Bytes) :
    absolute workingDirectory p =
      slash :: Bytes.join [slash] (trail workingDirectory p).reverse := by
  unfold absolute trail
  split_ifs with hrooted
  · rw [clean_of_rooted hrooted, resolved, hrooted]
  · have hne : workingDirectory ≠ [] := by
      rintro rfl
      cases h
    have hjoined : isRooted (workingDirectory ++ slash :: p) = true := by
      rw [isRooted_append hne, h]
    rw [clean_of_rooted hjoined, resolved, hjoined, elements_append, List.foldl_append]

/-- A path seen from the root is never empty. -/
theorem absolute_ne_nil {workingDirectory : Bytes} (h : isRooted workingDirectory = true)
    (p : Bytes) : absolute workingDirectory p ≠ [] := by
  rw [absolute_eq h]
  exact List.cons_ne_nil _ _

/-- A clean path leads where the path itself leads. -/
theorem trail_clean (workingDirectory p : Bytes) :
    trail workingDirectory (clean p) = trail workingDirectory p := by
  rw [trail, elements_clean, isRooted_clean, resolved,
    foldl_push_resolved fun hrooted => if_pos hrooted]
  rfl

theorem isElement_of_mem_trail {workingDirectory p e : Bytes}
    (h : e ∈ trail workingDirectory p) : IsElement e := by
  rcases mem_foldl_push h with hmem | hmem
  · exact isElement_of_mem hmem
  · split_ifs at hmem with hrooted
    · cases hmem
    · rcases mem_foldl_push hmem with hmem | hmem
      · exact isElement_of_mem hmem
      · cases hmem

theorem up_not_mem_trail (workingDirectory p : Bytes) : up ∉ trail workingDirectory p := by
  refine up_not_mem_foldl_push ?_ _
  split_ifs
  · exact List.not_mem_nil
  · exact up_not_mem_foldl_push List.not_mem_nil _

/-- The last element of a path, if it is a name, comes behind all others. -/
theorem trail_eq_final_cons {p : Bytes} (h : IsName (final p)) (workingDirectory : Bytes) :
    trail workingDirectory p = final p :: trail workingDirectory (parentText p) := by
  have hpush : ∀ below, push true below (final p) = final p :: below := push_name true h.ne_up
  have hfinal : elements (final p) = [final p] := elements_of_isElement h.toIsElement
  have hp := parentText_append_final p
  rcases parentText_eq p with hnil | ⟨above, habove⟩
  · rw [hnil, List.nil_append] at hp
    have hrooted : isRooted (final p) = false := isRooted_of_slash_not_mem (slash_not_mem_final p)
    have hempty : isRooted [] = false := rfl
    rw [hp] at hpush hfinal hrooted
    rw [hnil, hp, trail, trail, elements_nil, hfinal, hrooted, hempty]
    exact hpush _
  · have hrooted : isRooted p = isRooted (parentText p) := by
      conv_lhs => rw [← hp]
      exact isRooted_append (by simp [habove]) _
    have helements : elements p = elements (parentText p) ++ [final p] := by
      conv_lhs => rw [← hp]
      rw [habove, List.append_assoc, List.singleton_append, elements_append, elements_append,
        hfinal, elements_nil, List.append_nil]
    rw [trail, trail, helements, hrooted, List.foldl_append]
    exact hpush _

theorem directory_slash_cons_join {es : List Bytes} {e : Bytes} (hes : ∀ e ∈ es, IsElement e)
    (hup : up ∉ es) (he : IsElement e) :
    directory (slash :: Bytes.join [slash] (es ++ [e])) = slash :: Bytes.join [slash] es := by
  have htext : slash :: Bytes.join [slash] (es ++ [e]) = (fromRoot es ++ [slash]) ++ e := by
    rw [slash_cons_join (by simp), fromRoot_append_singleton, List.append_assoc,
      List.singleton_append]
  have hparent : parentText ((fromRoot es ++ [slash]) ++ e) = fromRoot es ++ [slash] := by
    rw [parentText_append he.slash_not_mem, parentText_slash]
  have hrooted : isRooted (fromRoot es ++ [slash]) = true := by
    cases es with
    | nil => rfl
    | cons first rest => rfl
  have hresolved : resolved (fromRoot es ++ [slash]) = es.reverse := by
    rw [resolved, hrooted, elements_append, elements_fromRoot hes, elements_nil, List.append_nil,
      foldl_push_names hup, List.append_nil]
  rw [directory, htext, hparent, clean_of_rooted hrooted, hresolved, List.reverse_reverse]

/-- Wherever a path leads, its last element stands in the directory that the text in front of it
leads to. -/
theorem directory_absolute {workingDirectory : Bytes} (hrooted : isRooted workingDirectory = true)
    {p : Bytes} (h : IsName (final p)) :
    directory (absolute workingDirectory p) = absolute workingDirectory (directory p) := by
  have hnames : ∀ e ∈ (trail workingDirectory (parentText p)).reverse, IsElement e := fun e he =>
    isElement_of_mem_trail (List.mem_reverse.1 he)
  have hup : up ∉ (trail workingDirectory (parentText p)).reverse := fun hmem =>
    up_not_mem_trail workingDirectory _ (List.mem_reverse.1 hmem)
  calc directory (absolute workingDirectory p)
      = directory (slash :: Bytes.join [slash]
          ((trail workingDirectory (parentText p)).reverse ++ [final p])) := by
        rw [absolute_eq hrooted, trail_eq_final_cons h, List.reverse_cons]
    _ = slash :: Bytes.join [slash] (trail workingDirectory (parentText p)).reverse :=
        directory_slash_cons_join hnames hup h.toIsElement
    _ = absolute workingDirectory (directory p) := by
        rw [absolute_eq hrooted, directory, trail_clean]

end Path
end CrossCompiler
