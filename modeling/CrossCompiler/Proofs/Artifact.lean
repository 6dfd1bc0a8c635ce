import CrossCompiler.Artifact
import CrossCompiler.Proofs.Case
import CrossCompiler.Proofs.FileTree.Removal
import CrossCompiler.Proofs.Path

/-!
# The names of artifacts

An artifact's path ends in a name of its own, whatever its source is called.  The stem in
front of its extension is a part of the source, and never an empty one if the source has the
name of a C file; so the path begins as the source does.  Up to the last slash it is the
source's path, so an artifact stands in the directory of its source.
-/

namespace CrossCompiler

/-- The names of C files. -/
def IsSourceName (path : Bytes) : Prop := text ".c" <:+ path ∨ text ".C" <:+ path

/-- A path that is neither empty nor ends in a slash. -/
def EndsInElement (path : Bytes) : Prop := ∃ b, path.getLast? = some b ∧ b ≠ Path.slash

theorem endsInElement_append {e : Bytes} (hne : e ≠ []) (hslash : Path.slash ∉ e) (path : Bytes) :
    EndsInElement (path ++ e) := by
  refine ⟨e.getLast hne, ?_, fun heq => hslash (heq ▸ List.getLast_mem hne)⟩
  rw [List.getLast?_append, List.getLast?_eq_some_getLast hne]
  rfl

theorem IsSourceName.endsInElement {path : Bytes} (h : IsSourceName path) :
    EndsInElement path := by
  rcases h with ⟨front, rfl⟩ | ⟨front, rfl⟩
  · exact endsInElement_append (by decide) (by decide) front
  · exact endsInElement_append (by decide) (by decide) front

/-- The names of C files are those that end, in lower case, as such a name does. -/
theorem hasSuffix_iff_isSourceName {path : Bytes} :
    Case.hasSuffix ".c" path = true ↔ IsSourceName path := by
  rw [Case.hasSuffix_iff (by decide)]
  constructor
  · rintro ⟨front, cs, rfl, hcs⟩
    obtain ⟨c, rfl, hc⟩ := Case.exists_of_map_lower_eq hcs
    have hletter : c = 'c' ∨ c = 'C' :=
      Case.eq_of_lower_eq (by decide) (by decide) (by decide) hc
    rcases hletter with rfl | rfl
    · exact .inl (List.suffix_append _ _)
    · exact .inr (List.suffix_append _ _)
  · rintro (⟨front, rfl⟩ | ⟨front, rfl⟩)
    · exact ⟨front, ['.', 'c'], rfl, by decide⟩
    · exact ⟨front, ['.', 'C'], rfl, by decide⟩

namespace Path

theorem final_suffix (p : Bytes) : final p <:+ p := by
  have hreversed : (final p).reverse <+: p.reverse := by
    rw [final, List.reverse_reverse]
    exact List.takeWhile_prefix _
  exact List.reverse_prefix.1 hreversed

theorem extension_suffix (p : Bytes) : extension p <:+ final p := by
  unfold extension
  split
  · next hdot =>
    -- In reverse, the extension is what stands in front of the first dot, and that dot.
    have hsplit := List.takeWhile_append_dropWhile (p := (· ≠ dot)) (l := (final p).reverse)
    cases hrest : (final p).reverse.dropWhile (· ≠ dot) with
    | nil =>
        have hall := List.dropWhile_eq_nil_iff.1 hrest dot (List.mem_reverse.2 hdot)
        simp at hall
    | cons b rest =>
        obtain rfl : b = dot := by
          have hhead := List.head?_dropWhile_not (· ≠ dot) (final p).reverse
          rw [hrest] at hhead
          simpa using hhead
        rw [hrest] at hsplit
        refine ⟨rest.reverse, ?_⟩
        have hback := congrArg List.reverse hsplit
        rw [List.reverse_reverse, List.reverse_append, List.reverse_cons, List.append_assoc,
          List.singleton_append] at hback
        exact hback
  · exact List.nil_suffix

theorem base_eq_final {p : Bytes} (h : EndsInElement p) : base p = final p := by
  obtain ⟨b, hlast, hb⟩ := h
  obtain ⟨front, rfl⟩ := List.getLast?_eq_some_iff.1 hlast
  have htrim : trimSlashes (front ++ [b]) = front ++ [b] := by
    rw [trimSlashes, List.reverse_append, List.reverse_singleton, List.singleton_append,
      List.dropWhile_cons_of_neg (by simpa using hb), List.reverse_cons, List.reverse_reverse]
  rw [base, htrim, if_neg (by simp), if_neg (by simp)]

theorem final_ne_nil {p : Bytes} (h : EndsInElement p) : final p ≠ [] := by
  obtain ⟨b, hlast, hb⟩ := h
  obtain ⟨front, rfl⟩ := List.getLast?_eq_some_iff.1 hlast
  rw [final_append (by simpa using hb.symm)]
  simp

theorem getLast?_final {p : Bytes} (h : final p ≠ []) : (final p).getLast? = p.getLast? := by
  conv_rhs => rw [← parentText_append_final p]
  rw [List.getLast?_append_of_ne_nil _ h]

theorem exists_trimSuffix_append (suffix p : Bytes) : ∃ rest, trimSuffix suffix p ++ rest = p := by
  unfold trimSuffix
  split
  · exact ⟨_, List.take_append_drop _ p⟩
  · exact ⟨[], List.append_nil p⟩

theorem trimSuffix_append (p suffix : Bytes) : trimSuffix suffix (p ++ suffix) = p := by
  rw [trimSuffix, if_pos (List.isSuffixOf_iff_suffix.2 (List.suffix_append p suffix)),
    List.length_append, Nat.add_sub_cancel, List.take_left]

/-- What ends in another byte than a slash or a dot ends in a name. -/
theorem isName_final {p : Bytes} {b : UInt8} (hlast : p.getLast? = some b) (hslash : b ≠ slash)
    (hdot : b ≠ dot) : IsName (final p) := by
  obtain ⟨front, rfl⟩ := List.getLast?_eq_some_iff.1 hlast
  have hb : slash ∉ [b] := by simpa using Ne.symm hslash
  have hfinal : final (front ++ [b]) = final front ++ [b] := final_append hb front
  have hend : ∀ e : Bytes, e.getLast? ≠ some b → final (front ++ [b]) ≠ e := by
    rintro e hne rfl
    rw [hfinal, List.getLast?_append] at hne
    exact hne rfl
  refine ⟨⟨hend _ (by simp), hend _ ?_, slash_not_mem_final _⟩, hend _ ?_⟩
  · exact fun heq => hdot (Option.some.inj heq).symm
  · exact fun heq => hdot (Option.some.inj heq).symm

end Path

theorem IsSourceName.getLast? {path : Bytes} (h : IsSourceName path) :
    path.getLast? = some (ascii 'c') ∨ path.getLast? = some (ascii 'C') := by
  rcases h with ⟨front, rfl⟩ | ⟨front, rfl⟩
  · exact .inl (List.getLast?_append_of_ne_nil front (by decide))
  · exact .inr (List.getLast?_append_of_ne_nil front (by decide))

theorem IsSourceName.isName_final {path : Bytes} (h : IsSourceName path) :
    Path.IsName (Path.final path) := by
  rcases h.getLast? with hlast | hlast
  · exact Path.isName_final hlast (by decide) (by decide)
  · exact Path.isName_final hlast (by decide) (by decide)

namespace Artifact

/-- What is put behind the stem of a source. -/
def suffix (artifact : Artifact) : Bytes := Path.dot :: artifact.extension

theorem path_eq (source : Bytes) (artifact : Artifact) :
    path source artifact = stem source ++ artifact.suffix := rfl

theorem slash_not_mem_suffix (artifact : Artifact) : Path.slash ∉ artifact.suffix := by
  cases artifact <;> decide

theorem exists_getLast?_suffix (artifact : Artifact) :
    ∃ b, artifact.suffix.getLast? = some b ∧ b ≠ Path.dot := by
  cases artifact with
  | preprocessed => exact ⟨ascii 'i', by decide, by decide⟩
  | assembly => exact ⟨ascii 'm', by decide, by decide⟩
  | binary => exact ⟨ascii 'n', by decide, by decide⟩
  | listing => exact ⟨ascii 't', by decide, by decide⟩

theorem getLast?_path (source : Bytes) (artifact : Artifact) :
    (path source artifact).getLast? = artifact.suffix.getLast? :=
  List.getLast?_append_of_ne_nil _ (List.cons_ne_nil _ _)

theorem isName_final_path (source : Bytes) (artifact : Artifact) :
    Path.IsName (Path.final (path source artifact)) := by
  obtain ⟨b, hlast, hdot⟩ := exists_getLast?_suffix artifact
  refine Path.isName_final ((getLast?_path source artifact).trans hlast) ?_ hdot
  rintro rfl
  exact slash_not_mem_suffix artifact (List.mem_of_getLast? hlast)

theorem endsInName_path (source : Bytes) (artifact : Artifact) :
    FileTree.EndsInName (path source artifact) :=
  FileTree.endsInName_of_isName (isName_final_path source artifact)

theorem replaced_suffix_final {source : Bytes} (h : EndsInElement source) :
    replaced source <:+ Path.final source := by
  simp only [replaced, Path.base_eq_final h]
  split
  · exact List.nil_suffix
  · exact (Path.extension_suffix _).trans (Path.final_suffix _)

/-- An extension gives way only if something is in front of it. -/
theorem replaced_ne_final {source : Bytes} (h : EndsInElement source) :
    replaced source ≠ Path.final source := by
  simp only [replaced, Path.base_eq_final h]
  split
  · exact (Path.final_ne_nil h).symm
  · assumption

/-- The last element of a source is a part that its artifacts keep, and what gives way. -/
theorem exists_kept {source : Bytes} (h : EndsInElement source) :
    ∃ kept, kept ≠ [] ∧ Path.final source = kept ++ replaced source ∧
      stem source = Path.parentText source ++ kept := by
  obtain ⟨kept, hkept⟩ := replaced_suffix_final h
  refine ⟨kept, ?_, hkept.symm, ?_⟩
  · rintro rfl
    exact replaced_ne_final h hkept
  · have hsource : source = Path.parentText source ++ kept ++ replaced source := by
      rw [List.append_assoc, hkept, Path.parentText_append_final]
    calc stem source
        = Path.trimSuffix (replaced source)
            (Path.parentText source ++ kept ++ replaced source) :=
          congrArg (Path.trimSuffix (replaced source)) hsource
      _ = Path.parentText source ++ kept := Path.trimSuffix_append _ _

theorem stem_ne_nil {source : Bytes} (h : EndsInElement source) : stem source ≠ [] := by
  obtain ⟨kept, hne, -, hstem⟩ := exists_kept h
  simp [hstem, hne]

/-- An artifact's path begins as its source does. -/
theorem head?_path {source : Bytes} (h : EndsInElement source) (artifact : Artifact) :
    (path source artifact).head? = source.head? := by
  obtain ⟨b, tail, hstem⟩ := List.exists_cons_of_ne_nil (stem_ne_nil h)
  have hhead : ∀ more, (stem source ++ more).head? = some b := by
    intro more
    rw [hstem]
    rfl
  obtain ⟨rest, hrest⟩ := Path.exists_trimSuffix_append (replaced source) source
  calc (path source artifact).head? = some b := hhead artifact.suffix
    _ = (stem source ++ rest).head? := (hhead rest).symm
    _ = source.head? := congrArg List.head? hrest

/-- An artifact's path is its source's up to the last slash. -/
theorem parentText_path {source : Bytes} (h : EndsInElement source) (artifact : Artifact) :
    Path.parentText (path source artifact) = Path.parentText source := by
  obtain ⟨kept, -, hfinal, hstem⟩ := exists_kept h
  have hslash : Path.slash ∉ kept := fun hmem =>
    Path.slash_not_mem_final source (hfinal ▸ List.mem_append_left _ hmem)
  rw [path_eq, Path.parentText_append (slash_not_mem_suffix artifact), hstem,
    Path.parentText_append hslash, Path.parentText_parentText]

end Artifact
end CrossCompiler
