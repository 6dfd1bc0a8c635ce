import CrossCompiler.Proofs.FileTree
import CrossCompiler.Proofs.Path

/-!
# Removing what stands at a path

Removal takes away one entry or nothing.  `Cleared` tells the four cases apart, for paths that
end in a name of their own; paths that end in a dot, two dots or no name at all are refused
for other reasons and are left out.  Afterwards the path leads to a directory or nowhere.
-/

namespace CrossCompiler
namespace FileTree

variable {t : FileTree} {place : Place}

theorem lookup?_erase_self (t : FileTree) (h : place ≠ []) :
    (t.erase place).lookup? place = none := by
  rw [lookup?, if_neg h, find?_erase_self, Option.map_none]

/-- Erasing a place changes nothing elsewhere. -/
theorem lookup?_erase_of_ne (t : FileTree) {other : Place} (h : other ≠ place) :
    (t.erase place).lookup? other = t.lookup? other := by
  unfold lookup?
  split
  · rfl
  · rw [find?_erase_of_ne t h]

theorem lookup?_of_erase {other : Place} {entry : Entry}
    (h : (t.erase place).lookup? other = some entry) : t.lookup? other = some entry := by
  by_cases hother : other = place
  · subst hother
    by_cases hroot : other = []
    · rw [lookup?, if_pos hroot] at h ⊢
      exact h
    · rw [lookup?_erase_self t hroot] at h
      cases h
  · rwa [lookup?_erase_of_ne t hother] at h

/-!
## Following a path
-/

/-- A step that can be made once something is erased could be made before. -/
theorem step_of_erase {here : Place} {name : Bytes} {found : Place × Entry}
    (h : (t.erase place).step here name = .ok found) : t.step here name = .ok found := by
  by_cases hproper : IsProper name
  · obtain ⟨hplace, hlookup⟩ := (step_eq_ok hproper).1 h
    exact (step_eq_ok hproper).2 ⟨hplace, lookup?_of_erase hlookup⟩
  · obtain hlong | ⟨there, hthere⟩ := step_improper hproper here
    · simp [hlong] at h
    · rwa [hthere] at h ⊢

theorem walk_of_erase {start found : Place × Entry} {names : List Bytes}
    (h : (t.erase place).walk start names = .ok found) : t.walk start names = .ok found := by
  induction names generalizing start with
  | nil => exact h
  | cons name names ih =>
      obtain ⟨hstart, next, hstep, hrest⟩ := walk_cons.1 h
      exact walk_cons.2 ⟨hstart, next, step_of_erase hstep, ih hrest⟩

theorem find_of_erase {path : Bytes} {found : Place × Entry}
    (h : (t.erase place).find path = .ok found) : t.find path = .ok found := by
  unfold find at h ⊢
  split at h
  · cases h
  · exact walk_of_erase h

/-- A path whose last name is neither one dot nor two, with no slash behind it. -/
def EndsInName (path : Bytes) : Prop :=
  path.getLast? ≠ some Path.slash ∧
    ∃ name, (names path).getLast? = some name ∧ name ≠ [Path.dot] ∧ name ≠ Path.up

/-- Such a path leads to an entry of the tree that bears its last name, and not to the root. -/
theorem find_eq_ok {path : Bytes} (hpath : EndsInName path) {found : Place × Entry}
    (h : t.find path = .ok found) :
    found.1 ≠ [] ∧ found.1.getLast? = (names path).getLast? ∧
      t.lookup? found.1 = some found.2 := by
  obtain ⟨hslash, name, hlast, hdot, hup⟩ := hpath
  obtain ⟨-, here, -, hstep⟩ := (find_eq_ok_iff hslash hlast).1 h
  have hproper : IsProper name := by
    refine ⟨fun hlong => ?_, hdot, hup⟩
    rw [step, if_pos hlong] at hstep
    cases hstep
  obtain ⟨hplace, hlookup⟩ := (step_eq_ok hproper).1 hstep
  rw [hplace, hlast]
  exact ⟨by simp, List.getLast?_concat, hlookup⟩

theorem getLast?_names {path : Bytes} (h : Path.final path ≠ []) :
    (names path).getLast? = some (Path.final path) := by
  obtain ⟨front, hsplit⟩ := Path.exists_split_eq path
  rw [names, hsplit, List.filter_append]
  simp [h]

/-- A path ends in a name of its own if what follows its last slash is a name. -/
theorem endsInName_of_isName {path : Bytes} (h : Path.IsName (Path.final path)) :
    EndsInName path := by
  refine ⟨fun hlast => ?_, Path.final path, getLast?_names h.ne_nil, h.ne_dot, h.ne_up⟩
  rw [← Path.parentText_append_final path, List.getLast?_append_of_ne_nil _ h.ne_nil] at hlast
  exact h.slash_not_mem (List.mem_of_getLast? hlast)

/-!
## What removal leaves
-/

/-- Something stands below a place if some longer place is taken. -/
theorem hasChildren_iff :
    t.hasChildren place = true ↔ ∃ below, below ≠ [] ∧ t.lookup? (place ++ below) ≠ none := by
  have hlookup : ∀ below, below ≠ [] →
      (t.lookup? (place ++ below) ≠ none ↔ ∃ entry ∈ t.entries, entry.1 = place ++ below) := by
    intro below hbelow
    rw [lookup?, if_neg (by simp [hbelow]), ne_eq, Option.map_eq_none_iff, List.find?_eq_none]
    simp
  rw [hasChildren, List.any_eq_true]
  constructor
  · rintro ⟨entry, hmem, hentry⟩
    rw [Bool.and_eq_true, List.isPrefixOf_iff_prefix, decide_eq_true_eq] at hentry
    obtain ⟨⟨below, hplace⟩, hne⟩ := hentry
    have hbelow : below ≠ [] := by
      rintro rfl
      exact hne (hplace.symm.trans (List.append_nil place))
    exact ⟨below, hbelow, (hlookup below hbelow).2 ⟨entry, hmem, hplace.symm⟩⟩
  · rintro ⟨below, hbelow, htaken⟩
    obtain ⟨entry, hmem, hplace⟩ := (hlookup below hbelow).1 htaken
    refine ⟨entry, hmem, ?_⟩
    rw [hplace, Bool.and_eq_true, List.isPrefixOf_iff_prefix, decide_eq_true_eq]
    exact ⟨List.prefix_append place below, by simpa using hbelow⟩

/-- What an attempt to remove a path leaves: a file and an empty directory are taken away, and
nothing else in the tree changes. -/
inductive Cleared (t : FileTree) (path : Bytes) : FileTree → Prop
  | file {place : Place} {entry : Entry} (found : t.find path = .ok (place, entry))
      (file : entry ≠ .directory) : Cleared t path (t.erase place)
  | emptyDirectory {place : Place} (found : t.find path = .ok (place, .directory))
      (empty : ∀ below, below ≠ [] → t.lookup? (place ++ below) = none) :
      Cleared t path (t.erase place)
  | directory {place : Place} (found : t.find path = .ok (place, .directory))
      (occupied : ∃ below, below ≠ [] ∧ t.lookup? (place ++ below) ≠ none) : Cleared t path t
  | nothing {reason : Reason} (missing : t.find path = .error reason) : Cleared t path t

theorem cleared_remove {path : Bytes} (hpath : EndsInName path) (t : FileTree) :
    Cleared t path ((t.remove path).toOption.getD t) := by
  rw [remove]
  cases hfind : t.find path with
  | error reason => exact .nothing hfind
  | ok found =>
      obtain ⟨place, entry⟩ := found
      cases entry with
      | file content => exact .file hfind (by simp)
      | damaged late => exact .file hfind (by simp)
      | directory =>
          obtain ⟨-, name, hlast, hdot, hup⟩ := hpath
          cases hchildren : t.hasChildren place with
          | true =>
              simp only [hlast, hchildren, Option.some.injEq, reduceCtorEq, hdot, hup,
                Bool.or_true, if_true, if_false, Except.toOption, Option.getD_none]
              exact .directory hfind (hasChildren_iff.1 hchildren)
          | false =>
              simp only [hlast, hchildren, Option.some.injEq, reduceCtorEq, hdot, hup,
                decide_false, Bool.or_false, Bool.false_eq_true, if_false, Except.toOption,
                Option.getD_some]
              refine .emptyDirectory hfind fun below hbelow => ?_
              by_contra htaken
              rw [hasChildren_iff.2 ⟨below, hbelow, htaken⟩] at hchildren
              cases hchildren

/-- Nothing but a directory is left at a path that was removed. -/
theorem Cleared.eq_directory {path : Bytes} (hpath : EndsInName path) {after : FileTree}
    (h : Cleared t path after) {there : Place} {left : Entry}
    (hleft : after.find path = .ok (there, left)) : left = .directory := by
  -- What is found behind an erasure was found before it, at the place that is erased.
  have hgone : ∀ {place : Place} {entry : Entry}, t.find path = .ok (place, entry) →
      (t.erase place).find path ≠ .ok (there, left) := by
    intro place entry hbefore hafter
    obtain ⟨hroot, -, hlookup⟩ := find_eq_ok hpath hafter
    have hsame := (find_of_erase hafter).symm.trans hbefore
    obtain ⟨rfl, -⟩ := Prod.mk.inj (Except.ok.inj hsame)
    rw [lookup?_erase_self t hroot] at hlookup
    cases hlookup
  cases h with
  | file found => exact absurd hleft (hgone found)
  | emptyDirectory found => exact absurd hleft (hgone found)
  | directory found =>
      obtain ⟨-, rfl⟩ := Prod.mk.inj (Except.ok.inj (found.symm.trans hleft))
      rfl
  | nothing missing =>
      rw [missing] at hleft
      cases hleft

end FileTree
end CrossCompiler
