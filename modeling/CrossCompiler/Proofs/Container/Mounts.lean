import CrossCompiler.CommandLine.Driver
import CrossCompiler.Proofs.Artifact

/-!
# What a container sees of a compilation

A container sees the directories that are bound into it, each at its own path and only once, in
the order in which they are listed.  The driver has two of them bound: the working directory and
the directory of the source.  However the source's path is spelt, the source and all that is made
from it stand in the second one, so every path that a tool is given leads to the same file inside
the container and outside.
-/

namespace CrossCompiler

namespace Container

theorem mem_distinct {seen directories : List Bytes} {d : Bytes} :
    d ∈ distinct seen directories ↔ d ∈ directories ∧ d ∉ seen := by
  induction directories generalizing seen with
  | nil => simp [distinct]
  | cons first rest ih =>
      rw [distinct]
      split_ifs with hseen
      · rw [ih]
        constructor
        · exact fun ⟨hrest, hnew⟩ => ⟨List.mem_cons_of_mem _ hrest, hnew⟩
        · rintro ⟨hmem, hnew⟩
          rcases List.mem_cons.1 hmem with rfl | hrest
          · exact absurd hseen hnew
          · exact ⟨hrest, hnew⟩
      · by_cases hfirst : d = first
        · simp [hfirst, hseen]
        · simp [hfirst, ih]

theorem nodup_distinct (seen directories : List Bytes) : (distinct seen directories).Nodup := by
  induction directories generalizing seen with
  | nil => exact List.nodup_nil
  | cons first rest ih =>
      rw [distinct]
      split_ifs
      · exact ih seen
      · refine List.nodup_cons.2 ⟨fun hmem => ?_, ih _⟩
        exact (mem_distinct.1 hmem).2 List.mem_cons_self

/-- Values that have all been met before add nothing. -/
theorem distinct_append_of_met {seen directories more : List Bytes}
    (h : ∀ d ∈ more, d ∈ seen ∨ d ∈ directories) :
    distinct seen (directories ++ more) = distinct seen directories := by
  induction directories generalizing seen with
  | nil =>
      refine List.eq_nil_iff_forall_not_mem.2 fun d hd => ?_
      obtain ⟨hmore, hnew⟩ := mem_distinct.1 hd
      exact hnew ((h d hmore).resolve_right List.not_mem_nil)
  | cons first rest ih =>
      have hmet : ∀ d ∈ more, d ∈ first :: seen ∨ d ∈ rest := by
        intro d hd
        have hd := h d hd
        rw [List.mem_cons] at hd ⊢
        tauto
      rw [List.cons_append, distinct, distinct]
      split_ifs with hseen
      · refine ih fun d hd => (hmet d hd).imp_left fun hd => ?_
        rcases List.mem_cons.1 hd with rfl | hd
        · exact hseen
        · exact hd
      · rw [ih hmet]

/-- One more value in front moves the others on by one place. -/
theorem pairwise_idxOf_cons {first : Bytes} {listed directories : List Bytes}
    (hne : ∀ d ∈ directories, d ≠ first)
    (h : directories.Pairwise fun d e => listed.idxOf d < listed.idxOf e) :
    directories.Pairwise fun d e => (first :: listed).idxOf d < (first :: listed).idxOf e := by
  refine h.imp_of_mem fun {d e} hd he hlt => ?_
  rw [List.idxOf_cons_ne listed (hne d hd).symm, List.idxOf_cons_ne listed (hne e he).symm]
  exact Nat.succ_lt_succ hlt

/-- The values stand in the order in which each of them was met first, also if some have been left
out from the start. -/
theorem pairwise_idxOf_distinct (p : Bytes → Bool) (seen listed : List Bytes) :
    (distinct seen (listed.filter p)).Pairwise fun d e => listed.idxOf d < listed.idxOf e := by
  induction listed generalizing seen with
  | nil => exact .nil
  | cons first rest ih =>
      have hmem {seen : List Bytes} {d : Bytes} (hd : d ∈ distinct seen (rest.filter p)) :
          p d = true ∧ d ∉ seen := by
        obtain ⟨hfilter, hnew⟩ := mem_distinct.1 hd
        exact ⟨(List.mem_filter.1 hfilter).2, hnew⟩
      -- The first value is left out, met before or new; in each case it is none of the others.
      by_cases hp : p first = true
      · rw [List.filter_cons_of_pos hp, distinct]
        split_ifs with hseen
        · refine pairwise_idxOf_cons (fun d hd => ?_) (ih seen)
          rintro rfl
          exact (hmem hd).2 hseen
        · have hne : ∀ d ∈ distinct (first :: seen) (rest.filter p), d ≠ first := by
            rintro d hd rfl
            exact (hmem hd).2 List.mem_cons_self
          refine List.pairwise_cons.2 ⟨fun d hd => ?_, pairwise_idxOf_cons hne (ih _)⟩
          rw [List.idxOf_cons_self, List.idxOf_cons_ne rest (hne d hd).symm]
          exact Nat.succ_pos _
      · rw [List.filter_cons_of_neg hp]
        refine pairwise_idxOf_cons (fun d hd => ?_) (ih seen)
        rintro rfl
        exact hp (hmem hd).1

namespace Config

theorem mem_directories {c : Config} {d : Bytes} :
    d ∈ c.directories ↔ d ≠ [] ∧ (d = c.workDirectory ∨ d ∈ c.mounts) := by
  rw [directories, mem_distinct, List.mem_filter, List.mem_cons]
  simp [and_comm]

/-- Both halves of a bind are as long as each other, so a bind tells its directory. -/
theorem bind_injective : Function.Injective fun d : Bytes => d ++ ascii ':' :: d := by
  intro d e heq
  have hlength : d.length = e.length := by
    have hsum := congrArg List.length heq
    simp only [List.length_append, List.length_cons] at hsum
    omega
  exact (List.append_inj heq hlength).1

theorem nodup_binds (c : Config) : c.binds.Nodup := (nodup_distinct _ _).map bind_injective

theorem count_binds {c : Config} {d : Bytes} (h : d ∈ c.directories) :
    c.binds.count (d ++ ascii ':' :: d) = 1 :=
  List.count_eq_one_of_mem c.nodup_binds (List.mem_map_of_mem h)

/-- To list directories again, or nothing instead of a directory, adds no directory. -/
theorem directories_append {c : Config} {more : List Bytes}
    (h : ∀ d ∈ more, d = [] ∨ d ∈ c.workDirectory :: c.mounts) :
    { c with mounts := c.mounts ++ more }.directories = c.directories := by
  rw [directories, directories, ← List.cons_append, List.filter_append]
  refine distinct_append_of_met fun d hd => .inr ?_
  obtain ⟨hmore, hne⟩ := List.mem_filter.1 hd
  exact List.mem_filter.2 ⟨(h d hmore).resolve_left (by simpa using hne), hne⟩

/-- The working directory and the mounts are bound each to its own path, no two of the binds being
the same, in the order in which the directories are first listed.  Empty paths are left out.  To
list directories again behind the others, or empty paths, changes nothing. -/
theorem binds_in_order_of_listing (c : Config) :
    let listed := c.workDirectory :: c.mounts
    c.binds.Nodup ∧
    (∃ directories : List Bytes, c.binds = directories.map (fun d => d ++ ascii ':' :: d) ∧
      (∀ d, d ∈ directories ↔ d ≠ [] ∧ d ∈ listed) ∧
      directories.Pairwise fun d e => listed.idxOf d < listed.idxOf e) ∧
    ∀ more : List Bytes, (∀ d ∈ more, d = [] ∨ d ∈ listed) →
      { c with mounts := c.mounts ++ more }.binds = c.binds := by
  intro listed
  refine ⟨c.nodup_binds, ⟨c.directories, rfl, fun d => ?_, ?_⟩, fun more hmore => ?_⟩
  · rw [mem_directories, List.mem_cons]
  · exact pairwise_idxOf_distinct _ [] listed
  · rw [binds, directories_append hmore, binds]

/-- A directory listed twice, and one whose name is the bind of the other. -/
example :
    (Config.mk [] (text "/a") [text "/a:/a", [], text "/b", text "/a"] 0 0 .standard).binds =
      [text "/a:/a", text "/a:/a:/a:/a", text "/b:/b"] := by
  decide

end Config
end Container

namespace Driver

/-- However the path of a source is spelt, the source and each of its artifacts stand in the one
directory that is mounted for them, and that directory is bound to its own path once. -/
theorem sandbox_mounts_artifacts {workDirectory : Bytes}
    (hrooted : Path.isRooted workDirectory = true) {o : Compilation.Options}
    (hsource : IsSourceName o.source) (user group : Int) (s : Settings) :
    let config := sandbox workDirectory user group s o
    let mount := Path.absolute workDirectory (Path.directory o.source)
    (config.workDirectory = workDirectory ∧ config.mounts = [mount]) ∧
    Path.directory (Path.absolute workDirectory o.source) = mount ∧
    (∀ artifact : Artifact,
      Path.directory (Path.absolute workDirectory (o.path artifact)) = mount) ∧
    config.binds.count (mount ++ ascii ':' :: mount) = 1 := by
  intro config mount
  refine ⟨⟨rfl, rfl⟩, Path.directory_absolute hrooted hsource.isName_final, ?_, ?_⟩
  · intro artifact
    have hname := Artifact.isName_final_path o.source artifact
    have hdirectory : Path.directory (o.path artifact) = Path.directory o.source := by
      rw [Compilation.Options.path, Path.directory,
        Artifact.parentText_path hsource.endsInElement, Path.directory]
    calc Path.directory (Path.absolute workDirectory (o.path artifact))
        = Path.absolute workDirectory (Path.directory (o.path artifact)) :=
          Path.directory_absolute hrooted hname
      _ = mount := congrArg (Path.absolute workDirectory) hdirectory
  · have hmount : mount ∈ config.directories :=
      Container.Config.mem_directories.2
        ⟨Path.absolute_ne_nil hrooted _, .inr List.mem_cons_self⟩
    exact Container.Config.count_binds hmount

/-- A hidden source on a winding path, seen from a working directory that is not clean. -/
theorem sandbox_mounts_artifacts_winding :
    let workDirectory := text "/home//u/./w"
    let o : Compilation.Options :=
      ⟨text "../t/.././src//..c", false, false, false, false, false, .default⟩
    let config := sandbox workDirectory 0 0 (.standard ⟨[], text "image"⟩) o
    o.path .listing = text "../t/.././src//..lst" ∧
      Path.directory (Path.absolute workDirectory (o.path .listing)) = text "/home/u/src" ∧
      config.binds.count (text "/home/u/src:/home/u/src") = 1 := by
  intro workDirectory o config
  have hrooted : Path.isRooted workDirectory = true := by decide
  have hsource : IsSourceName o.source := .inl ⟨text "../t/.././src//.", rfl⟩
  have hmount : Path.absolute workDirectory (Path.directory o.source) = text "/home/u/src" := by
    decide
  obtain ⟨-, -, hartifact, hbinds⟩ :=
    sandbox_mounts_artifacts hrooted hsource 0 0 (.standard ⟨[], text "image"⟩)
  rw [hmount] at hartifact hbinds
  exact ⟨by decide, hartifact .listing, hbinds⟩

end Driver
end CrossCompiler
