import CrossCompiler.Platform
import CrossCompiler.Proofs.Case

/-!
# Which platform a name stands for

A platform is chosen by its name in any case, where the `s` of one of them may be long.  Nothing
else chooses one, and nothing chooses two.  A platform that is given again and again is in the
end the one of the last name that was one.
-/

namespace CrossCompiler
namespace Platform

open Case (Written)

variable {p q : Platform} {s : Bytes}

theorem exists_text_name (h : p ∈ all) :
    ∃ known : String, p.name = text known ∧
      ∀ c ∈ known.toList, c.toNat < 0x80 ∧ c.toLower ≠ 'k' := by
  simp only [all, List.mem_cons, List.not_mem_nil, or_false] at h
  rcases h with rfl | rfl | rfl
  · exact ⟨"Transputer", rfl, by simp⟩
  · exact ⟨"EPOC16", rfl, by simp⟩
  · exact ⟨"X86_64", rfl, by simp⟩

theorem isName_name_iff (h : p ∈ all) :
    Case.isName p.name s = true ↔ Written (Utf8.toChars p.name) s := by
  obtain ⟨known, hname, hknown⟩ := exists_text_name h
  rw [hname, Utf8.toChars_text]
  exact Case.isName_iff_written hknown

/-- No two names are the same in any case. -/
theorem eq_of_isName_name (hp : p ∈ all) (hq : q ∈ all) (hps : Case.isName p.name s = true)
    (hqs : Case.isName q.name s = true) : p = q := by
  have hfolded : (Utf8.symbols p.name).map Case.foldSymbol =
      (Utf8.symbols q.name).map Case.foldSymbol := by
    rw [Case.isName, decide_eq_true_eq] at hps hqs
    rw [← hps, hqs]
  have hdistinct : ∀ p ∈ all, ∀ q ∈ all, (Utf8.symbols p.name).map Case.foldSymbol =
      (Utf8.symbols q.name).map Case.foldSymbol → p = q := by
    decide
  exact hdistinct p hp q hq hfolded

theorem isName_of_parse? (h : parse? s = some p) : p ∈ all ∧ Case.isName p.name s = true := by
  have hname := List.find?_some h
  exact ⟨List.mem_of_find?_eq_some h, hname⟩

theorem parse?_eq_some_iff :
    parse? s = some p ↔ p ∈ all ∧ Written (Utf8.toChars p.name) s := by
  constructor
  · intro h
    obtain ⟨hp, hname⟩ := isName_of_parse? h
    exact ⟨hp, (isName_name_iff hp).1 hname⟩
  · rintro ⟨hp, hwritten⟩
    have hname : Case.isName p.name s = true := (isName_name_iff hp).2 hwritten
    have hfound : (parse? s).isSome = true := List.find?_isSome.2 ⟨p, hp, hname⟩
    obtain ⟨q, hq⟩ := Option.isSome_iff_exists.1 hfound
    obtain ⟨hqall, hqname⟩ := isName_of_parse? hq
    rw [hq, eq_of_isName_name hp hqall hname hqname]

theorem parse?_eq_none_iff :
    parse? s = none ↔ ∀ p ∈ all, ¬ Written (Utf8.toChars p.name) s := by
  rw [Option.eq_none_iff_forall_ne_some]
  simp only [ne_eq, parse?_eq_some_iff, not_and]

theorem isValid_of_parse? (h : parse? s = some p) : Utf8.isValid s = true := by
  obtain ⟨hp, hname⟩ := isName_of_parse? h
  obtain ⟨known, hknown, -⟩ := exists_text_name hp
  obtain ⟨cs, rfl⟩ := Case.exists_encode_of_isName (hknown ▸ hname)
  exact Utf8.isValid_encode cs

/-- What a platform is after names have been given for it one after the other. -/
theorem foldl_set (start : Platform) (given : List Bytes) :
    given.foldl set start = (given.filterMap parse?).getLast?.getD start := by
  induction given using List.reverseRecOn with
  | nil => rfl
  | append_singleton given s ih =>
      rw [List.foldl_append, ih, List.filterMap_append, List.getLast?_append]
      cases h : parse? s with
      | none => simp [set, h]
      | some p => simp [set, h]

/-- A byte string stands for a platform exactly if it is the platform's name in any case; it then
stands for no other, and what is not valid UTF-8 stands for none.  Whatever is given for a
platform, it ends as the last name that was one tells, and what is no name leaves it as it was. -/
theorem parse?_exact_and_last_name_counts :
    (∀ s p, parse? s = some p ↔ p ∈ all ∧ Written (Utf8.toChars p.name) s) ∧
    (∀ s, ∀ p ∈ all, ∀ q ∈ all, Written (Utf8.toChars p.name) s →
      Written (Utf8.toChars q.name) s → p = q) ∧
    (∀ s, parse? s = none ↔ ∀ p ∈ all, ¬ Written (Utf8.toChars p.name) s) ∧
    (∀ s, Utf8.isValid s = false → parse? s = none) ∧
    (∀ (start : Platform) (given : List Bytes),
      given.foldl set start = (given.filterMap parse?).getLast?.getD start) ∧
    ∀ (start : Platform) (given : List Bytes) (s : Bytes), parse? s = none →
      (given ++ [s]).foldl set start = given.foldl set start := by
  refine ⟨fun s p => parse?_eq_some_iff, ?_, fun s => parse?_eq_none_iff, ?_, foldl_set, ?_⟩
  · intro s p hp q hq hps hqs
    have hp' : parse? s = some p := parse?_eq_some_iff.2 ⟨hp, hps⟩
    have hq' : parse? s = some q := parse?_eq_some_iff.2 ⟨hq, hqs⟩
    exact Option.some.inj (hp'.symm.trans hq')
  · intro s hbroken
    refine Option.eq_none_iff_forall_ne_some.2 fun p hp => ?_
    rw [isValid_of_parse? hp] at hbroken
    cases hbroken
  · intro start given s hs
    rw [foldl_set, foldl_set, List.filterMap_append]
    simp [hs]

end Platform
end CrossCompiler
