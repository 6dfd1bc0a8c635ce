import CrossCompiler.CommandLine.Driver
import CrossCompiler.CommandLine.FrontEnd
import CrossCompiler.Proofs.Artifact

/-!
# Which files a command line may name

Both programs check the files they are given before they do anything with them, one check after
the other, and object to the first that fails.  The checks of names go by lower case; here it is
said on bytes what passes them.  Two letters beyond ASCII would come into question.  The dotted
capital `U+0130` is lowered to `i`, so it is accepted in the name of a preprocessed source.  The
long s `U+017F` is in lower case already, so it is not accepted in the name of an assembler file.
-/

namespace CrossCompiler

/-!
## Names
-/

/-- The names of preprocessed sources. -/
def IsPreprocessedName (path : Bytes) : Prop :=
  text ".i" <:+ path ∨ text ".I" <:+ path ∨ text ".\u0130" <:+ path

/-- The names of assembler files: those that end in `.asm`, each letter in either case. -/
def IsAssemblyName (path : Bytes) : Prop :=
  ∃ ending, ending <:+ path ∧ List.Forall₂ Case.InCase ".asm".toList ending

theorem hasSuffix_iff_isPreprocessedName {path : Bytes} :
    Case.hasSuffix ".i" path = true ↔ IsPreprocessedName path := by
  rw [Case.hasSuffix_iff (by decide)]
  constructor
  · rintro ⟨front, cs, rfl, hcs⟩
    obtain ⟨c, rfl, hc⟩ := Case.exists_of_map_lower_eq hcs
    rcases (Case.lower_eq_iff (by decide)).1 hc with hlower | ⟨rfl, -⟩ | ⟨-, hkelvin⟩
    · have hletter : c = 'i' ∨ c = 'I' := Case.eq_of_toLower_eq (c := 'i') hlower
      rcases hletter with rfl | rfl
      · exact .inl (List.suffix_append _ _)
      · exact .inr (.inl (List.suffix_append _ _))
    · exact .inr (.inr (List.suffix_append _ _))
    · exact absurd hkelvin (by decide)
  · rintro (⟨front, rfl⟩ | ⟨front, rfl⟩ | ⟨front, rfl⟩)
    · exact ⟨front, ['.', 'i'], rfl, by decide⟩
    · exact ⟨front, ['.', 'I'], rfl, by decide⟩
    · exact ⟨front, ['.', '\u0130'], rfl, by decide⟩

theorem hasSuffix_iff_isAssemblyName {path : Bytes} :
    Case.hasSuffix ".asm" path = true ↔ IsAssemblyName path :=
  Case.hasSuffix_iff_forall₂ (by simp [Case.isPlain_iff])

/-- The long s is no `s` in the name of an assembler file. -/
theorem not_isAssemblyName_long (front : Bytes) (a m : UInt8) :
    ¬ IsAssemblyName (front ++ ascii '.' :: a :: (String.utf8EncodeChar '\u017f' ++ [m])) := by
  have hlong : String.utf8EncodeChar '\u017f' = [0xC5, 0xBF] := by decide
  rw [hlong]
  rintro ⟨ending, hending, hcases⟩
  -- The last four bytes begin behind the dot.
  have hsuffix : [a, 0xC5, 0xBF, m] <:+ front ++ ascii '.' :: a :: ([0xC5, 0xBF] ++ [m]) :=
    ⟨front ++ [ascii '.'], by simp⟩
  have hlength : ending.length = 4 := hcases.length_eq.symm.trans (by simp)
  obtain rfl : ending = [a, 0xC5, 0xBF, m] :=
    (List.suffix_of_suffix_length_le hending hsuffix (by simp [hlength])).eq_of_length hlength
  have hletter : Case.InCase 'a' 0xC5 := by
    rw [show ".asm".toList = ['.', 'a', 's', 'm'] from rfl] at hcases
    exact (List.forall₂_cons.1 (List.forall₂_cons.1 hcases).2).1
  exact absurd hletter (by unfold Case.InCase; decide)

/-!
## Checks one after the other
-/

namespace CommandLine

variable {ε α : Type}

/-- Something demanded of a command line, and the objection to one that falls short of it. -/
structure Demand (ε : Type) where
  met : Prop
  objection : ε

/-- The objection is that to the first of the demands that is not met. -/
def FirstUnmet (demands : List (Demand ε)) (objection : ε) : Prop :=
  ∃ before d after, demands = before ++ d :: after ∧ (∀ b ∈ before, b.met) ∧ ¬ d.met ∧
    d.objection = objection

theorem not_firstUnmet_nil {objection : ε} : ¬ FirstUnmet [] objection := by
  rintro ⟨before, d, after, hsplit, -⟩
  simp at hsplit

theorem firstUnmet_cons {d : Demand ε} {demands : List (Demand ε)} {objection : ε} :
    FirstUnmet (d :: demands) objection ↔
      (¬ d.met ∧ d.objection = objection) ∨ (d.met ∧ FirstUnmet demands objection) := by
  constructor
  · rintro ⟨before, e, after, hsplit, hbefore, hunmet, hobjection⟩
    cases before with
    | nil =>
        obtain ⟨rfl, rfl⟩ := List.cons.inj hsplit
        exact .inl ⟨hunmet, hobjection⟩
    | cons b before =>
        obtain ⟨rfl, rfl⟩ := List.cons.inj hsplit
        obtain ⟨hmet, hrest⟩ := List.forall_mem_cons.1 hbefore
        exact .inr ⟨hmet, before, e, after, rfl, hrest, hunmet, hobjection⟩
  · rintro (⟨hunmet, hobjection⟩ | ⟨hmet, before, e, after, rfl, hbefore, hunmet, hobjection⟩)
    · exact ⟨[], d, demands, rfl, by simp, hunmet, hobjection⟩
    · exact ⟨d :: before, e, after, rfl, List.forall_mem_cons.2 ⟨hmet, hbefore⟩, hunmet,
        hobjection⟩

/-- How checks end that look at one demand after the other and have something to give if all of
them are met. -/
inductive Checks (given : α) : List (Demand ε) → Except ε α → Prop
  | done : Checks given [] (.ok given)
  | unmet {d : Demand ε} {demands : List (Demand ε)} (hd : ¬ d.met) :
      Checks given (d :: demands) (.error d.objection)
  | met {d : Demand ε} {demands : List (Demand ε)} {answer : Except ε α} (hd : d.met)
      (rest : Checks given demands answer) : Checks given (d :: demands) answer

namespace Checks

variable {given : α} {demands : List (Demand ε)} {answer : Except ε α}

theorem eq_ok_iff (h : Checks given demands answer) {a : α} :
    answer = .ok a ↔ (∀ d ∈ demands, d.met) ∧ a = given := by
  induction h with
  | done => simp [eq_comm]
  | unmet hd => simp [hd]
  | met hd _ ih => rw [ih, List.forall_mem_cons, and_iff_right hd]

theorem eq_error_iff (h : Checks given demands answer) {e : ε} :
    answer = .error e ↔ FirstUnmet demands e := by
  induction h with
  | done => simp [not_firstUnmet_nil]
  | unmet hd => simp [firstUnmet_cons, hd]
  | met hd _ ih => simp [firstUnmet_cons, hd, ih]

end Checks

end CommandLine

open CommandLine

/-- Something stands at the path, be it a file or a directory. -/
def FileTree.Exists (files : FileTree) (path : Bytes) : Prop :=
  ∃ entry, files.stat path = .ok entry

/-!
## The driver
-/

namespace Driver

/-- What the driver demands of its arguments, in the order in which it looks. -/
def demands (files : FileTree) (args : List Bytes) : List (Demand Objection) :=
  let source := args.headD []
  [⟨args ≠ [], .noFile⟩, ⟨args.length ≤ 1, .manyFiles args.length⟩,
    ⟨IsSourceName source, .notSource source⟩, ⟨files.Exists source, .notFound source⟩]

/-- The options for a source: what the flags have been set to. -/
def Settings.options (s : Settings) (source : Bytes) : Compilation.Options :=
  ⟨source, s.lex, s.parse, s.codegen, s.saveTemps, s.stop, s.platform⟩

theorem checks_validate (files : FileTree) (s : Settings) (args : List Bytes) :
    Checks (s.options (args.headD [])) (demands files args) (validate files s args) := by
  match args with
  | [] => exact .unmet (by simp)
  | [source] =>
      refine .met (by simp) (.met (by simp) ?_)
      rw [validate]
      by_cases hname : IsSourceName source
      · rw [hasSuffix_iff_isSourceName.2 hname]
        refine .met hname ?_
        cases hstat : files.stat source with
        | error fault => exact .unmet (by simp [FileTree.Exists, hstat])
        | ok entry => exact .met ⟨entry, hstat⟩ .done
      · rw [Bool.eq_false_iff.2 (mt hasSuffix_iff_isSourceName.1 hname)]
        exact .unmet hname
  | _ :: _ :: _ => exact .met (by simp) (.unmet (by simp))

theorem validate_eq_ok_iff {files : FileTree} {s : Settings} {args : List Bytes}
    {o : Compilation.Options} :
    validate files s args = .ok o ↔ ∃ source, args = [source] ∧ IsSourceName source ∧
      files.Exists source ∧ o = s.options source := by
  rw [(checks_validate files s args).eq_ok_iff]
  match args with
  | [] => simp [demands]
  | [source] => simp [demands, and_assoc]
  | _ :: _ :: _ => simp [demands]

end Driver

/-!
## The front end
-/

namespace FrontEnd

/-- What the front end demands of its arguments and its output, in the order in which it looks. -/
def demands (files : FileTree) (s : Settings) (args : List Bytes) : List (Demand Objection) :=
  let input := args.headD []
  [⟨args ≠ [], .noFile⟩, ⟨args.length ≤ 1, .manyFiles args.length⟩,
    ⟨IsPreprocessedName input, .notPreprocessed input⟩, ⟨files.Exists input, .notFound input⟩,
    ⟨s.output = [] ∨ IsAssemblyName s.output, .notAssembly s.output⟩]

/-- The options for an input: what the flags have been set to. -/
def Settings.options (s : Settings) (input : Bytes) : Options :=
  ⟨input, s.output, s.lex, s.parse, s.codegen, s.platform⟩

theorem checks_validate (files : FileTree) (s : Settings) (args : List Bytes) :
    Checks (s.options (args.headD [])) (demands files s args) (validate files s args) := by
  match args with
  | [] => exact .unmet (by simp)
  | [input] =>
      refine .met (by simp) (.met (by simp) ?_)
      rw [validate]
      by_cases hname : IsPreprocessedName input
      · rw [hasSuffix_iff_isPreprocessedName.2 hname]
        refine .met hname ?_
        cases hstat : files.stat input with
        | error fault => exact .unmet (by simp [FileTree.Exists, hstat])
        | ok entry =>
            refine .met ⟨entry, hstat⟩ ?_
            -- The name of the output is looked at only if an output is given.
            have hrefused : (s.output ≠ [] ∧ !Case.hasSuffix ".asm" s.output) ↔
                ¬ (s.output = [] ∨ IsAssemblyName s.output) := by
              simp [← hasSuffix_iff_isAssemblyName]
            by_cases houtput : s.output = [] ∨ IsAssemblyName s.output
            · simp only [if_neg (mt hrefused.1 (not_not_intro houtput))]
              exact .met houtput .done
            · simp only [if_pos (hrefused.2 houtput)]
              exact .unmet houtput
      · rw [Bool.eq_false_iff.2 (mt hasSuffix_iff_isPreprocessedName.1 hname)]
        exact .unmet hname
  | _ :: _ :: _ => exact .met (by simp) (.unmet (by simp))

theorem validate_eq_ok_iff {files : FileTree} {s : Settings} {args : List Bytes} {o : Options} :
    validate files s args = .ok o ↔ ∃ input, args = [input] ∧ IsPreprocessedName input ∧
      files.Exists input ∧ (s.output = [] ∨ IsAssemblyName s.output) ∧ o = s.options input := by
  rw [(checks_validate files s args).eq_ok_iff]
  match args with
  | [] => simp [demands]
  | [input] => simp [demands, and_assoc]
  | _ :: _ :: _ => simp [demands]

end FrontEnd

namespace CommandLine

/-- The driver accepts exactly one existing source with the name of a C file, the front end
exactly one existing input with the name of a preprocessed source, if its output is not given or
has the name of an assembler file.  What is accepted is handed on unchanged, with what the flags
have been set to.  Otherwise the objection is that to the first demand that is not met. -/
theorem validate_accepts_exactly (files : FileTree) (args : List Bytes) :
    (∀ s : Driver.Settings,
      (∀ o, Driver.validate files s args = .ok o ↔
        ∃ source, args = [source] ∧ IsSourceName source ∧ files.Exists source ∧
          o = ⟨source, s.lex, s.parse, s.codegen, s.saveTemps, s.stop, s.platform⟩) ∧
      ∀ e, Driver.validate files s args = .error e ↔ FirstUnmet (Driver.demands files args) e) ∧
    (∀ s : FrontEnd.Settings,
      (∀ o, FrontEnd.validate files s args = .ok o ↔
        ∃ input, args = [input] ∧ IsPreprocessedName input ∧ files.Exists input ∧
          (s.output = [] ∨ IsAssemblyName s.output) ∧
          o = ⟨input, s.output, s.lex, s.parse, s.codegen, s.platform⟩) ∧
      ∀ e, FrontEnd.validate files s args = .error e ↔
        FirstUnmet (FrontEnd.demands files s args) e) ∧
    ∀ (front : Bytes) (a m : UInt8),
      ¬ IsAssemblyName (front ++ ascii '.' :: a :: (String.utf8EncodeChar '\u017f' ++ [m])) := by
  refine ⟨fun s => ⟨fun o => Driver.validate_eq_ok_iff, fun e => ?_⟩,
    fun s => ⟨fun o => FrontEnd.validate_eq_ok_iff, fun e => ?_⟩, not_isAssemblyName_long⟩
  · exact (Driver.checks_validate files s args).eq_error_iff
  · exact (FrontEnd.checks_validate files s args).eq_error_iff

/-- A stray byte in front of an ending with the dotted capital, and an output with the long s. -/
example :
    let input := 0xFF :: text ".\u0130"
    let files := FileTree.ofList [(input, [])]
    FrontEnd.validate files { output := text "x.aSm" } [input] =
        .ok ⟨input, text "x.aSm", false, false, false, .default⟩ ∧
      FrontEnd.validate files { output := text "x.a\u017fm" } [input] =
        .error (.notAssembly (text "x.a\u017fm")) := by
  decide

end CommandLine
end CrossCompiler
