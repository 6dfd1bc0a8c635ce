import Mathlib
import CrossCompiler.FileTree

/-!
# Writing a file and reading it back

Writing changes what stands at one place, which never was a directory.  A path leads through
directories only, so every path that led to a directory still leads to the same one, and the
written path leads to the new content.  Where a file can be read, one can be written, so what
could not be written cannot be read either.  Nothing is assumed of the tree: its entries may
repeat a place or stand below a file, and its working directory may be gone.
-/

namespace CrossCompiler
namespace FileTree

variable {t : FileTree} {place : Place} {e : Entry}

theorem find?_erase_self (t : FileTree) (place : Place) :
    (t.erase place).entries.find? (fun entry => entry.1 = place) = none := by
  simp [erase]

theorem find?_erase_of_ne (t : FileTree) {other : Place} (h : other ≠ place) :
    (t.erase place).entries.find? (fun entry => entry.1 = other) =
      t.entries.find? fun entry => entry.1 = other := by
  rw [erase, List.find?_filter]
  congr 1
  funext entry
  by_cases hentry : entry.1 = other
  · simp [hentry, h]
  · simp [hentry]

theorem lookup?_put_self (t : FileTree) (h : place ≠ []) (e : Entry) :
    (t.put place e).lookup? place = some e := by
  rw [lookup?, if_neg h, put, List.find?_append, find?_erase_self]
  simp

theorem lookup?_put_of_ne (t : FileTree) {other : Place} (h : other ≠ place) (e : Entry) :
    (t.put place e).lookup? other = t.lookup? other := by
  unfold lookup?
  split
  · rfl
  · rw [put, List.find?_append, find?_erase_of_ne t h]
    simp [h.symm]

/-!
## Following a path
-/

/-- A name of its own, neither too long nor one that stays or goes up. -/
def IsProper (name : Bytes) : Prop :=
  ¬ nameLimit < name.length ∧ name ≠ [Path.dot] ∧ name ≠ Path.up

theorem step_proper (t : FileTree) {name : Bytes} (h : IsProper name) (here : Place) :
    t.step here name =
      match t.lookup? (here ++ [name]) with
      | none => .error .missing
      | some entry => .ok (here ++ [name], entry) := by
  rw [step, if_neg h.1, if_neg h.2.1]
  exact if_neg h.2.2

/-- A name that is not proper leads to a directory or nowhere, in every tree. -/
theorem step_improper {name : Bytes} (h : ¬ IsProper name) (here : Place) :
    (∀ t : FileTree, t.step here name = .error .nameTooLong) ∨
      ∃ there, ∀ t : FileTree, t.step here name = .ok (there, .directory) := by
  unfold step
  split_ifs with hlong hdot hup
  · exact .inl fun _ => rfl
  · exact .inr ⟨_, fun _ => rfl⟩
  · exact .inr ⟨_, fun _ => rfl⟩
  · exact absurd ⟨hlong, hdot, hup⟩ h

/-- A step under a proper name leads to what stands there. -/
theorem step_eq_ok {name : Bytes} (h : IsProper name) {here : Place} {found : Place × Entry} :
    t.step here name = .ok found ↔
      found.1 = here ++ [name] ∧ t.lookup? (here ++ [name]) = some found.2 := by
  obtain ⟨place, entry⟩ := found
  rw [step_proper t h]
  cases t.lookup? (here ++ [name]) with
  | none => simp
  | some there => simp [eq_comm]

/-- A step to anything but a directory is made under a proper name. -/
theorem isProper_of_step {name : Bytes} {here there : Place} (hentry : e ≠ .directory)
    (h : t.step here name = .ok (there, e)) : IsProper name := by
  by_contra hnot
  obtain hlong | ⟨place, hplace⟩ := step_improper hnot here
  · simp [hlong] at h
  · simp [hplace, hentry.symm] at h

/-- A step is made from a directory. -/
theorem walk_cons {start found : Place × Entry} {name : Bytes} {names : List Bytes} :
    t.walk start (name :: names) = .ok found ↔
      start.2 = .directory ∧ ∃ next, t.step start.1 name = .ok next ∧
        t.walk next names = .ok found := by
  obtain ⟨here, entry⟩ := start
  cases entry with
  | file content => simp [walk]
  | damaged late => simp [walk]
  | directory =>
      rw [walk]
      cases t.step here name with
      | error reason => simp
      | ok next => simp

/-- A path is followed to its end by following its parts one after the other. -/
theorem walk_append {start found : Place × Entry} {front back : List Bytes} :
    t.walk start (front ++ back) = .ok found ↔
      ∃ middle, t.walk start front = .ok middle ∧ t.walk middle back = .ok found := by
  induction front generalizing start with
  | nil => simp [walk]
  | cons name front ih =>
      rw [List.cons_append, walk_cons]
      simp only [ih, walk_cons]
      constructor
      · rintro ⟨hstart, next, hstep, middle, hfront, hback⟩
        exact ⟨middle, ⟨hstart, next, hstep, hfront⟩, hback⟩
      · rintro ⟨middle, ⟨hstart, next, hstep, hfront⟩, hback⟩
        exact ⟨hstart, next, hstep, middle, hfront, hback⟩

/-- What a path to a directory passes through is a directory. -/
theorem eq_directory_of_walk {start : Place × Entry} {there : Place} {names : List Bytes}
    (h : t.walk start names = .ok (there, .directory)) : start.2 = .directory := by
  cases names with
  | nil =>
      obtain rfl := Except.ok.inj h
      rfl
  | cons name names => exact (walk_cons.1 h).1

/-- A step to a directory does not notice a file. -/
theorem step_put (hplace : t.lookup? place ≠ some .directory) {here there : Place} {name : Bytes}
    (h : t.step here name = .ok (there, .directory)) :
    (t.put place e).step here name = .ok (there, .directory) := by
  by_cases hproper : IsProper name
  · obtain ⟨hthere, hlookup⟩ := (step_eq_ok hproper).1 h
    have hne : here ++ [name] ≠ place := fun heq => hplace (heq ▸ hlookup)
    exact (step_eq_ok hproper).2 ⟨hthere, (lookup?_put_of_ne t hne e).trans hlookup⟩
  · obtain hlong | ⟨place', hplace'⟩ := step_improper hproper here
    · simp [hlong] at h
    · rwa [hplace'] at h ⊢

theorem walk_put (hplace : t.lookup? place ≠ some .directory) {start : Place × Entry}
    {names : List Bytes} {there : Place} (h : t.walk start names = .ok (there, .directory)) :
    (t.put place e).walk start names = .ok (there, .directory) := by
  induction names generalizing start with
  | nil => exact h
  | cons name names ih =>
      obtain ⟨hstart, ⟨here, entry⟩, hstep, hrest⟩ := walk_cons.1 h
      -- The rest of the path leads to a directory, so this step did too.
      obtain rfl : entry = .directory := eq_directory_of_walk hrest
      exact walk_cons.2 ⟨hstart, _, step_put hplace hstep, ih hrest⟩

/-- A path with names and no slash behind them is followed up to its last name, from a
directory, and then by one step. -/
theorem find_eq_ok_iff {path name : Bytes} (hslash : path.getLast? ≠ some Path.slash)
    (hlast : (names path).getLast? = some name) {found : Place × Entry} :
    t.find path = .ok found ↔
      refusal? path = none ∧ ∃ here,
        t.walk (t.origin path, .directory) (names path).dropLast = .ok (here, .directory) ∧
        t.step here name = .ok found := by
  have hroute : route path = (names path).dropLast ++ [name] := by
    rw [route, if_neg hslash, List.append_nil, List.dropLast_append_getLast? name hlast]
  rw [find]
  cases refusal? path with
  | some reason => simp
  | none =>
      simp only [hroute, walk_append, walk_cons, walk, true_and]
      constructor
      · rintro ⟨⟨here, entry⟩, hwalk, rfl, next, hstep, hnext⟩
        obtain rfl := Except.ok.inj hnext
        exact ⟨here, hwalk, hstep⟩
      · rintro ⟨here, hwalk, hstep⟩
        exact ⟨(here, .directory), hwalk, rfl, found, hstep, rfl⟩

/-!
## Where a file can be written
-/

/-- A name that is not proper is no place for a file. -/
theorem landing_improper {name : Bytes} (h : ¬ IsProper name) (here : Place) :
    t.landing here name ≠ .ok place := by
  obtain hlong | ⟨there, hthere⟩ := step_improper h here
  · simp [landing, hlong]
  · simp [landing, hthere]

/-- Where something other than a directory stands, a file can land. -/
theorem landing_of_step {name : Bytes} {here there : Place} (hentry : e ≠ .directory)
    (h : t.step here name = .ok (there, e)) : t.landing here name = .ok there := by
  cases e with
  | directory => exact absurd rfl hentry
  | file content => rw [landing, h]
  | damaged late => rw [landing, h]

/-- A file lands in the directory, and not on another one. -/
theorem landing_proper {name : Bytes} (hproper : IsProper name) {here : Place}
    (h : t.landing here name = .ok place) :
    place = here ++ [name] ∧ t.lookup? place ≠ some .directory := by
  cases hlookup : t.lookup? (here ++ [name]) with
  | none =>
      simp only [landing, step_proper t hproper, hlookup] at h
      split_ifs at h
      obtain rfl := Except.ok.inj h
      exact ⟨rfl, by simp [hlookup]⟩
  | some entry =>
      have hstep : t.step here name = .ok (here ++ [name], entry) :=
        (step_eq_ok hproper).2 ⟨rfl, hlookup⟩
      by_cases hentry : entry = .directory
      · rw [hentry] at hstep
        simp [landing, hstep] at h
      · rw [landing_of_step hentry hstep] at h
        obtain rfl := Except.ok.inj h
        exact ⟨rfl, by simp [hlookup, hentry]⟩

theorem target_eq_ok {path : Bytes} :
    t.target path = .ok place ↔
      refusal? path = none ∧ path.getLast? ≠ some Path.slash ∧ ∃ here,
        t.walk (t.origin path, .directory) (names path).dropLast = .ok (here, .directory) ∧
        t.landing here ((names path).getLast?.getD [Path.dot]) = .ok place := by
  rw [target]
  cases refusal? path with
  | some reason => simp
  | none =>
      cases t.walk (t.origin path, .directory) (names path).dropLast with
      | error reason => simp
      | ok found =>
          obtain ⟨here, entry⟩ := found
          cases entry with
          | file content => simp
          | damaged late => simp
          | directory =>
              by_cases hslash : path.getLast? = some Path.slash
              · simp [hslash]
              · simp [hslash]

/-- Where a file can be written: below a directory that the path leads to, under a proper
name, and not over a directory. -/
structure Writable (t : FileTree) (path : Bytes) (here : Place) (name : Bytes) : Prop where
  accepted : refusal? path = none
  file : path.getLast? ≠ some Path.slash
  last : (names path).getLast? = some name
  above : t.walk (t.origin path, .directory) (names path).dropLast = .ok (here, .directory)
  proper : IsProper name
  free : t.lookup? (here ++ [name]) ≠ some .directory

theorem writable_of_target {path : Bytes} (h : t.target path = .ok place) :
    ∃ here name, Writable t path here name ∧ place = here ++ [name] := by
  obtain ⟨haccepted, hslash, here, hwalk, hlanding⟩ := target_eq_ok.1 h
  by_cases hproper : IsProper ((names path).getLast?.getD [Path.dot])
  · cases hlast : (names path).getLast? with
    | none =>
        -- A path without names stands for the directory itself, which is no proper name.
        exact absurd rfl (hlast ▸ hproper).2.1
    | some name =>
        rw [hlast, Option.getD_some] at hproper hlanding
        obtain ⟨rfl, hfree⟩ := landing_proper hproper hlanding
        exact ⟨here, name, ⟨haccepted, hslash, hlast, hwalk, hproper, hfree⟩, rfl⟩
  · exact absurd hlanding (landing_improper hproper here)

theorem write_eq_ok {t' : FileTree} {path content : Bytes} :
    t.write path content = .ok t' ↔ ∃ place, t.target path = .ok place ∧
      (∀ late, t.lookup? place ≠ some (.damaged late)) ∧ t' = t.put place (.file content) := by
  rw [write]
  cases t.target path with
  | error reason => simp
  | ok place =>
      cases hlookup : t.lookup? place with
      | none => simp [hlookup, eq_comm]
      | some entry => cases entry <;> simp [hlookup, eq_comm]

/-!
## Reading and writing
-/

/-- A file that was written can be read at the same path. -/
theorem read_of_write {t' : FileTree} {path content : Bytes}
    (h : t.write path content = .ok t') : t'.read path = .ok content := by
  obtain ⟨place, htarget, -, rfl⟩ := write_eq_ok.1 h
  obtain ⟨here, name, hwritable, rfl⟩ := writable_of_target htarget
  have hfind : (t.put (here ++ [name]) (.file content)).find path =
      .ok (here ++ [name], .file content) :=
    (find_eq_ok_iff hwritable.file hwritable.last).2 ⟨hwritable.accepted, here,
      walk_put hwritable.free hwritable.above,
      (step_eq_ok hwritable.proper).2 ⟨rfl, lookup?_put_self t (by simp) _⟩⟩
  rw [read, hfind]

theorem find_of_read {path content : Bytes} (h : t.read path = .ok content) :
    ∃ place, t.find path = .ok (place, .file content) := by
  unfold read at h
  split at h
  · next place found hfind =>
    obtain rfl := Except.ok.inj h
    exact ⟨place, hfind⟩
  · cases h
  · cases h
  · cases h

/-- A path that leads to a file has names, and no slash behind them. -/
theorem names_of_find_file {path content : Bytes} (h : t.find path = .ok (place, .file content)) :
    path.getLast? ≠ some Path.slash ∧ ∃ name, (names path).getLast? = some name := by
  rw [find] at h
  cases hrefusal : refusal? path with
  | some reason => simp [hrefusal] at h
  | none =>
      rw [hrefusal] at h
      have hslash : path.getLast? ≠ some Path.slash := by
        intro hslash
        simp only [route, if_pos hslash] at h
        obtain ⟨middle, -, hdot⟩ := walk_append.1 h
        obtain ⟨-, next, hstep, hnext⟩ := walk_cons.1 hdot
        obtain rfl := Except.ok.inj hnext
        exact (isProper_of_step (by simp) hstep).2.1 rfl
      refine ⟨hslash, ?_⟩
      cases hlast : (names path).getLast? with
      | none => simp [route, List.getLast?_eq_none_iff.1 hlast, hslash, walk] at h
      | some name => exact ⟨name, rfl⟩

/-- Where a file can be read, another can be written. -/
theorem write_of_read {path content : Bytes} (h : t.read path = .ok content) (content' : Bytes) :
    ∃ t', t.write path content' = .ok t' := by
  obtain ⟨place, hfind⟩ := find_of_read h
  obtain ⟨hslash, name, hlast⟩ := names_of_find_file hfind
  obtain ⟨haccepted, here, hwalk, hstep⟩ := (find_eq_ok_iff hslash hlast).1 hfind
  obtain ⟨rfl, hlookup⟩ := (step_eq_ok (isProper_of_step (by simp) hstep)).1 hstep
  have hlanding := landing_of_step (by simp) hstep
  refine ⟨_, write_eq_ok.2 ⟨here ++ [name], target_eq_ok.2 ⟨haccepted, hslash, here, hwalk, ?_⟩,
    by simp [hlookup], rfl⟩⟩
  rwa [hlast, Option.getD_some]

end FileTree
end CrossCompiler
