import CrossCompiler.Proofs.Artifact

/-!
# Sources with the same artifacts

The artifacts of a source are told apart by their extensions, and those of two sources by their
stems.  A stem with an extension behind it has that stem again, so an artifact taken for a source
has the artifacts of its own source.  Two C files have the same stem if they differ in the case of
their last letter, but for names that are nothing but an extension: to these another extension is
added, so `.c` and `.C` are as different as any two names, while `.c` and `.c.c` have the same stem.
-/

namespace CrossCompiler

namespace Path

/-- The last dot of a path begins its extension. -/
theorem extension_append {ext : Bytes} (hdot : dot ∉ ext) (hslash : slash ∉ ext) (front : Bytes) :
    extension (front ++ dot :: ext) = dot :: ext := by
  have hend : slash ∉ dot :: ext := by
    simpa [hslash] using (by decide : slash ≠ dot)
  have hfinal : final (front ++ dot :: ext) = final front ++ dot :: ext := final_append hend front
  have hrun : (final front ++ dot :: ext).reverse.takeWhile (· ≠ dot) = ext.reverse := by
    rw [List.reverse_append, List.reverse_cons, List.append_assoc, List.singleton_append]
    refine takeWhile_append_eq ?_ ?_
    · intro b hb
      simpa using fun heq : b = dot => hdot (heq ▸ List.mem_reverse.1 hb)
    · simp
  rw [extension, hfinal, if_pos (by simp), hrun, List.reverse_reverse]

end Path

namespace Artifact

/-!
## Stems
-/

/-- What stands in front of an extension is the stem, unless it is empty or ends in a slash. -/
theorem stem_append {front ext : Bytes} (hfront : Path.final front ≠ []) (hdot : Path.dot ∉ ext)
    (hslash : Path.slash ∉ ext) : stem (front ++ Path.dot :: ext) = front := by
  have hend : Path.slash ∉ Path.dot :: ext := by
    simpa [hslash] using (by decide : Path.slash ≠ Path.dot)
  have helement : EndsInElement (front ++ Path.dot :: ext) :=
    endsInElement_append (List.cons_ne_nil _ _) hend front
  have hreplaced : replaced (front ++ Path.dot :: ext) = Path.dot :: ext := by
    have hextension := Path.extension_append hdot hslash (Path.final front)
    have hne : Path.dot :: ext ≠ Path.final front ++ Path.dot :: ext := by
      simpa using hfront.symm
    simp only [replaced, Path.base_eq_final helement, Path.final_append hend, hextension,
      if_neg hne]
  rw [stem, hreplaced, Path.trimSuffix_append]

theorem dot_not_mem_extension (artifact : Artifact) : Path.dot ∉ artifact.extension := by
  cases artifact <;> decide

theorem slash_not_mem_extension (artifact : Artifact) : Path.slash ∉ artifact.extension :=
  fun h => slash_not_mem_suffix artifact (List.mem_cons_of_mem _ h)

/-- An artifact has the stem of its source. -/
theorem stem_path {source : Bytes} (h : EndsInElement source) (artifact : Artifact) :
    stem (path source artifact) = stem source := by
  obtain ⟨kept, hne, hfinal, hstem⟩ := exists_kept h
  have hslash : Path.slash ∉ kept := fun hmem =>
    Path.slash_not_mem_final source (hfinal ▸ List.mem_append_left _ hmem)
  have hfront : Path.final (stem source) ≠ [] := by
    rw [hstem, Path.final_append hslash, Path.final_parentText]
    exact hne
  exact stem_append hfront (dot_not_mem_extension artifact) (slash_not_mem_extension artifact)

/-- Whatever bytes a path consists of, if it is not empty and no slash ends it, each of its
artifacts has the artifacts of the path itself, and begins as the path does up to the last
slash. -/
theorem artifacts_of_artifact {p : Bytes} (hne : p ≠ []) (hslash : p.getLast? ≠ some Path.slash)
    (artifact : Artifact) :
    (∀ other, path (path p artifact) other = path p other) ∧
      Path.parentText (path p artifact) = Path.parentText p ∧
      Path.parentText p <+: path p artifact := by
  have helement : EndsInElement p :=
    ⟨p.getLast hne, List.getLast?_eq_some_getLast hne, fun heq =>
      hslash (heq ▸ List.getLast?_eq_some_getLast hne)⟩
  have hparent : Path.parentText (path p artifact) = Path.parentText p :=
    parentText_path helement artifact
  refine ⟨fun other => ?_, hparent, ?_⟩
  · rw [path_eq, stem_path helement artifact, path_eq]
  · rw [← hparent]
    exact ⟨_, Path.parentText_append_final _⟩

/-- Two dots in a directory whose name has an extension. -/
theorem artifacts_of_artifact_dots :
    let p := text "a.b/.."
    (p ≠ [] ∧ p.getLast? ≠ some Path.slash ∧ path p .binary = text "a.b/..bin") ∧
      path (text "a.b/..bin") .listing = path p .listing := by
  intro p
  have hne : p ≠ [] := by decide
  have hslash : p.getLast? ≠ some Path.slash := by decide
  have hbinary : path p .binary = text "a.b/..bin" := by decide
  refine ⟨⟨hne, hslash, hbinary⟩, ?_⟩
  rw [← hbinary]
  exact (artifacts_of_artifact hne hslash .binary).1 .listing

/-!
## Two sources
-/

/-- Artifacts of different kinds end in different bytes. -/
theorem eq_of_getLast?_suffix {a b : Artifact} (h : a.suffix.getLast? = b.suffix.getLast?) :
    a = b := by
  revert h
  cases a <;> cases b <;> decide

/-- Two artifacts have the same path if they are of one kind and of one stem. -/
theorem path_eq_path_iff {p q : Bytes} {a b : Artifact} :
    path p a = path q b ↔ stem p = stem q ∧ a = b := by
  constructor
  · intro h
    obtain rfl : a = b := by
      have hlast := congrArg List.getLast? h
      rw [getLast?_path, getLast?_path] at hlast
      exact eq_of_getLast?_suffix hlast
    exact ⟨List.append_cancel_right h, rfl⟩
  · rintro ⟨hstem, rfl⟩
    rw [path_eq, path_eq, hstem]

/-- The extension of a C file, in either case. -/
def IsSourceEnd (e : Bytes) : Prop := e = text ".c" ∨ e = text ".C"

/-- Equal up to the case of the last letter. -/
def EqualButCase (p q : Bytes) : Prop :=
  ∃ front e e', IsSourceEnd e ∧ IsSourceEnd e' ∧ p = front ++ e ∧ q = front ++ e'

/-- The last element of the first path is nothing but an extension, and in the second path another
one stands behind it. -/
def Extends (p q : Bytes) : Prop := IsSourceEnd (Path.final p) ∧ ∃ e, IsSourceEnd e ∧ q = p ++ e

/-- The paths of sources that have the same artifacts. -/
def Namesakes (p q : Bytes) : Prop :=
  p = q ∨ (EqualButCase p q ∧ ¬ IsSourceEnd (Path.final p)) ∨ Extends p q ∨ Extends q p

theorem isSourceName_iff {p : Bytes} :
    IsSourceName p ↔ ∃ front e, IsSourceEnd e ∧ p = front ++ e := by
  constructor
  · rintro (⟨front, rfl⟩ | ⟨front, rfl⟩)
    · exact ⟨front, _, .inl rfl, rfl⟩
    · exact ⟨front, _, .inr rfl, rfl⟩
  · rintro ⟨front, e, rfl | rfl, rfl⟩
    · exact .inl (List.suffix_append _ _)
    · exact .inr (List.suffix_append _ _)

theorem IsSourceEnd.exists_ext {e : Bytes} (h : IsSourceEnd e) :
    ∃ ext, e = Path.dot :: ext ∧ Path.dot ∉ ext ∧ Path.slash ∉ ext := by
  rcases h with rfl | rfl
  · exact ⟨text "c", rfl, by decide, by decide⟩
  · exact ⟨text "C", rfl, by decide, by decide⟩

theorem IsSourceEnd.final_append {e : Bytes} (h : IsSourceEnd e) (front : Bytes) :
    Path.final (front ++ e) = Path.final front ++ e := by
  refine Path.final_append ?_ front
  rcases h with rfl | rfl <;> decide

theorem IsSourceEnd.length_eq {e : Bytes} (h : IsSourceEnd e) : e.length = 2 := by
  rcases h with rfl | rfl <;> rfl

/-- In front of its extension a name has something, unless it is nothing but the extension. -/
theorem not_isSourceEnd_iff {front e : Bytes} (he : IsSourceEnd e) :
    ¬ IsSourceEnd (Path.final (front ++ e)) ↔ Path.final front ≠ [] := by
  rw [he.final_append, not_iff_not]
  constructor
  · intro h
    have hlength := h.length_eq
    rw [List.length_append, he.length_eq] at hlength
    exact List.length_eq_zero_iff.1 (by omega)
  · intro hnil
    rwa [hnil, List.nil_append]

theorem stem_of_bare {p : Bytes} (h : IsSourceEnd (Path.final p)) : stem p = p := by
  obtain ⟨ext, hfinal, hdot, hslash⟩ := h.exists_ext
  have helement : EndsInElement p := by
    rw [← Path.parentText_append_final p]
    refine endsInElement_append ?_ (Path.slash_not_mem_final p) _
    simp [hfinal]
  have hextension : Path.extension (Path.final p) = Path.final p := by
    rw [hfinal]
    exact Path.extension_append hdot hslash []
  have hreplaced : replaced p = [] := by
    simp only [replaced, Path.base_eq_final helement, hextension, if_true]
  have hwhole := Path.trimSuffix_append p []
  rwa [List.append_nil, ← hreplaced] at hwhole

theorem stem_of_not_bare {front e : Bytes} (he : IsSourceEnd e)
    (h : ¬ IsSourceEnd (Path.final (front ++ e))) : stem (front ++ e) = front := by
  have hfront : Path.final front ≠ [] := (not_isSourceEnd_iff he).1 h
  obtain ⟨ext, rfl, hdot, hslash⟩ := he.exists_ext
  exact stem_append hfront hdot hslash

theorem Extends.stem_eq {p q : Bytes} (h : Extends p q) : stem p = stem q := by
  obtain ⟨hbare, e, he, rfl⟩ := h
  have hp : Path.final p ≠ [] := by
    intro hnil
    have hlength := hbare.length_eq
    simp [hnil] at hlength
  rw [stem_of_bare hbare, stem_of_not_bare he ((not_isSourceEnd_iff he).2 hp)]

theorem Namesakes.stem_eq {p q : Bytes} (h : Namesakes p q) : stem p = stem q := by
  rcases h with rfl | ⟨⟨front, e, e', he, he', rfl, rfl⟩, hbare⟩ | hpq | hqp
  · rfl
  · have hfront := (not_isSourceEnd_iff he).1 hbare
    rw [stem_of_not_bare he hbare, stem_of_not_bare he' ((not_isSourceEnd_iff he').2 hfront)]
  · exact hpq.stem_eq
  · exact hqp.stem_eq.symm

/-- Whether a name is nothing but an extension is asked of both sources: the four answers are the
four ways to be namesakes. -/
theorem namesakes_of_stem_eq {p q : Bytes} (hp : IsSourceName p) (hq : IsSourceName q)
    (h : stem p = stem q) : Namesakes p q := by
  obtain ⟨front, e, he, rfl⟩ := isSourceName_iff.1 hp
  obtain ⟨front', e', he', rfl⟩ := isSourceName_iff.1 hq
  by_cases hbare : IsSourceEnd (Path.final (front ++ e))
  · rw [stem_of_bare hbare] at h
    by_cases hbare' : IsSourceEnd (Path.final (front' ++ e'))
    · rw [stem_of_bare hbare'] at h
      exact .inl h
    · rw [stem_of_not_bare he' hbare'] at h
      exact .inr (.inr (.inl ⟨hbare, e', he', by rw [h]⟩))
  · rw [stem_of_not_bare he hbare] at h
    by_cases hbare' : IsSourceEnd (Path.final (front' ++ e'))
    · rw [stem_of_bare hbare'] at h
      exact .inr (.inr (.inr ⟨hbare', e, he, by rw [h]⟩))
    · rw [stem_of_not_bare he' hbare'] at h
      exact .inr (.inl ⟨⟨front, e, e', he, he', rfl, by rw [h]⟩, hbare⟩)

/-- Two C files have an artifact in common exactly if they are namesakes, and then they have all
of them in common, each as the same kind of artifact. -/
theorem share_artifact_iff_namesakes {p q : Bytes} (hp : IsSourceName p) (hq : IsSourceName q) :
    ((∃ a b, path p a = path q b) ↔ Namesakes p q) ∧
      (Namesakes p q → ∀ a, path p a = path q a) := by
  refine ⟨⟨?_, fun h => ⟨.binary, .binary, path_eq_path_iff.2 ⟨h.stem_eq, rfl⟩⟩⟩,
    fun h a => path_eq_path_iff.2 ⟨h.stem_eq, rfl⟩⟩
  rintro ⟨a, b, hpath⟩
  exact namesakes_of_stem_eq hp hq (path_eq_path_iff.1 hpath).1

/-- The file `.C` and the file `.C.c` of one directory. -/
theorem share_artifact_iff_namesakes_hidden :
    let p := text "d.c/.C"
    let q := text "d.c/.C.c"
    (IsSourceName p ∧ IsSourceName q) ∧ p ≠ q ∧ ∀ a, path p a = path q a := by
  intro p q
  have hp : IsSourceName p := .inr ⟨text "d.c/", rfl⟩
  have hq : IsSourceName q := .inl ⟨text "d.c/.C", rfl⟩
  have hsame : Namesakes p q := .inr (.inr (.inl ⟨.inr (by decide), text ".c", .inl rfl, rfl⟩))
  exact ⟨⟨hp, hq⟩, by decide, (share_artifact_iff_namesakes hp hq).2 hsame⟩

/-- The case of the last letter is not all the same in a name that is nothing but an extension. -/
theorem equalButCase_not_share_artifact :
    let p := text ".c"
    let q := text ".C"
    (IsSourceName p ∧ IsSourceName q) ∧
      ¬ ((∃ a b, path p a = path q b) ↔ EqualButCase p q ∨ Extends p q ∨ Extends q p) := by
  intro p q
  have hp : IsSourceName p := .inl ⟨[], rfl⟩
  have hq : IsSourceName q := .inr ⟨[], rfl⟩
  have hcase : EqualButCase p q := ⟨[], p, q, .inl rfl, .inr rfl, rfl, rfl⟩
  refine ⟨⟨hp, hq⟩, fun h => ?_⟩
  obtain ⟨a, b, hpath⟩ := h.2 (.inl hcase)
  have hstem : stem p = stem q := (path_eq_path_iff.1 hpath).1
  revert hstem
  decide

end Artifact
end CrossCompiler
