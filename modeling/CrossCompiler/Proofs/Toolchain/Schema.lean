import CrossCompiler.Proofs.Case
import CrossCompiler.Proofs.Json.FirstValue
import CrossCompiler.Toolchain.Profile

/-!
# Which texts are profiles

A profile is an object whose members are named after the tools, each an object whose members are
named `cmd`, each an array of strings.  Anything may be null in the place of an object, an array
or a string, names are taken in any case, and a name may be repeated.  A text can be loaded
exactly if it begins, behind white space, with the text of such a value.
-/

namespace CrossCompiler
namespace Profile

open Utf8

/-!
## The schema
-/

/-- An array of strings. -/
inductive IsCommand : Json.Value → Prop
  | null : IsCommand .null
  | array {elements : List Json.Value}
      (strings : ∀ e ∈ elements, e = .null ∨ ∃ s, e = .string s) : IsCommand (.array elements)

/-- An object with commands only. -/
inductive IsToolObject : Json.Value → Prop
  | null : IsToolObject .null
  | object {members : List (List Char × Json.Value)}
      (commands : ∀ m ∈ members, m.1.map Case.fold = "cmd".toList ∧ IsCommand m.2) :
      IsToolObject (.object members)

/-- An object with the objects of tools only. -/
inductive IsProfile : Json.Value → Prop
  | null : IsProfile .null
  | object {members : List (List Char × Json.Value)}
      (tools : ∀ m ∈ members,
        m.1.map Case.fold ∈ ["preprocessor", "compiler", "assembler"].map String.toList ∧
          IsToolObject m.2) :
      IsProfile (.object members)

/-- A byte string that begins, behind white space, with the text of a profile. -/
def ProfileText (content : Bytes) : Prop :=
  ∃ blanks written rest v, content = blanks ++ (written ++ rest) ∧ Json.Blanks (symbols blanks) ∧
    Json.JsonText (symbols written) v ∧ IsProfile v

/-!
## Names
-/

theorem isName_cmd (name : List Char) :
    Case.isName (text "cmd") (Utf8.encode name) = true ↔ name.map Case.fold = "cmd".toList :=
  Case.isName_encode "cmd" name

theorem toolNamed?_isSome (name : List Char) :
    (toolNamed? name).isSome = true ↔
      name.map Case.fold ∈ ["preprocessor", "compiler", "assembler"].map String.toList := by
  have hpreprocessor := Case.isName_encode "preprocessor" name
  have hcompiler := Case.isName_encode "compiler" name
  have hassembler := Case.isName_encode "assembler" name
  rw [toolNamed?, List.find?_isSome]
  simp only [Tool.all, List.mem_cons, List.not_mem_nil, or_false, exists_eq_or_imp, exists_eq_left,
    Tool.name, hpreprocessor, hcompiler, hassembler, List.map_cons, List.map_nil]
  rfl

/-!
## What can be interpreted
-/

/-- Whether a sequence succeeds, if what decides on its second part is the same for every result
of the first. -/
theorem exists_bind_eq_ok {ε α β : Type} {first : Except ε α} {next : α → Except ε β} {P : Prop}
    (h : ∀ a, first = .ok a → ((∃ b, next a = .ok b) ↔ P)) :
    (∃ b, first >>= next = .ok b) ↔ (∃ a, first = .ok a) ∧ P := by
  constructor
  · rintro ⟨b, hb⟩
    obtain ⟨a, ha, hnext⟩ := bind_eq_ok_iff.1 hb
    exact ⟨⟨a, ha⟩, (h a ha).1 ⟨b, hnext⟩⟩
  · rintro ⟨⟨a, ha⟩, hP⟩
    obtain ⟨b, hb⟩ := (h a ha).2 hP
    exact ⟨b, bind_eq_ok_iff.2 ⟨a, ha, hb⟩⟩

theorem overwrite_null (elements : List Json.Value) (old : List Bytes) :
    overwrite (.null :: elements) old = overwrite elements old.tail >>= fun found =>
      .ok (old.headD [] :: found.1, found.2) := rfl

theorem overwrite_string (s : List Char) (elements : List Json.Value) (old : List Bytes) :
    overwrite (.string s :: elements) old = overwrite elements old.tail >>= fun found =>
      .ok (Utf8.encode s :: found.1, found.2) := rfl

theorem overwrite_isOk_iff (elements : List Json.Value) (old : List Bytes) :
    (∃ found, overwrite elements old = .ok found) ↔
      ∀ e ∈ elements, e = .null ∨ ∃ s, e = .string s := by
  induction elements generalizing old with
  | nil => simp [overwrite]
  | cons e elements ih =>
      rw [List.forall_mem_cons, ← ih old.tail]
      cases e with
      | null =>
          rw [overwrite_null, exists_bind_eq_ok (P := True) (by simp)]
          simp
      | string s =>
          rw [overwrite_string, exists_bind_eq_ok (P := True) (by simp)]
          simp
      | boolean b => simp [overwrite, bind, Except.bind]
      | number cs => simp [overwrite, bind, Except.bind]
      | array found => simp [overwrite, bind, Except.bind]
      | object found => simp [overwrite, bind, Except.bind]

theorem setCommand_isOk_iff (slot : Slot) (v : Json.Value) :
    (∃ next, setCommand slot v = .ok next) ↔ IsCommand v := by
  cases v with
  | null => exact ⟨fun _ => .null, fun _ => ⟨_, rfl⟩⟩
  | array elements =>
      have harray : IsCommand (.array elements) ↔
          ∀ e ∈ elements, e = .null ∨ ∃ s, e = .string s :=
        ⟨fun h => by cases h; assumption, .array⟩
      cases elements with
      | nil => exact ⟨fun _ => .array (by simp), fun _ => ⟨_, rfl⟩⟩
      | cons e elements =>
          rw [harray, ← overwrite_isOk_iff _ (slot.current.getD [] ++ slot.leftover), setCommand]
          · rw [exists_bind_eq_ok (P := True) (by simp [pure, Except.pure])]
            simp
          · exact List.cons_ne_nil _ _
  | boolean b => exact ⟨nofun, nofun⟩
  | number cs => exact ⟨nofun, nofun⟩
  | string s => exact ⟨nofun, nofun⟩
  | object found => exact ⟨nofun, nofun⟩

theorem applyTool_isOk_iff (slot : Slot) (members : List (List Char × Json.Value)) :
    (∃ next, applyTool slot members = .ok next) ↔
      ∀ m ∈ members, m.1.map Case.fold = "cmd".toList ∧ IsCommand m.2 := by
  induction members generalizing slot with
  | nil => simp [applyTool]
  | cons m members ih =>
      obtain ⟨name, v⟩ := m
      rw [List.forall_mem_cons, applyTool]
      split_ifs with hname
      · rw [exists_bind_eq_ok fun next _ => ih next, setCommand_isOk_iff]
        simp [(isName_cmd name).1 hname]
      · constructor
        · rintro ⟨next, h⟩
          cases h
        · rintro ⟨⟨h, -⟩, -⟩
          exact absurd ((isName_cmd name).2 h) hname

theorem setTool_isOk_iff (slot : Slot) (v : Json.Value) :
    (∃ next, setTool slot v = .ok next) ↔ IsToolObject v := by
  cases v with
  | null => exact ⟨fun _ => .null, fun _ => ⟨_, rfl⟩⟩
  | object members =>
      rw [setTool, applyTool_isOk_iff]
      exact ⟨.object, fun h => by cases h; assumption⟩
  | boolean b => exact ⟨nofun, nofun⟩
  | number cs => exact ⟨nofun, nofun⟩
  | string s => exact ⟨nofun, nofun⟩
  | array found => exact ⟨nofun, nofun⟩

theorem applyMembers_isOk_iff (draft : Draft) (members : List (List Char × Json.Value)) :
    (∃ next, applyMembers draft members = .ok next) ↔ ∀ m ∈ members,
      m.1.map Case.fold ∈ ["preprocessor", "compiler", "assembler"].map String.toList ∧
        IsToolObject m.2 := by
  induction members generalizing draft with
  | nil => simp [applyMembers]
  | cons m members ih =>
      obtain ⟨name, v⟩ := m
      have hnamed := toolNamed?_isSome name
      rw [List.forall_mem_cons, applyMembers, ← hnamed]
      cases htool : toolNamed? name with
      | none => simp
      | some tool =>
          dsimp only
          rw [exists_bind_eq_ok fun next _ => ih (draft.setSlot tool next), setTool_isOk_iff]
          simp

theorem interpret_isOk_iff (v : Json.Value) : (∃ t, interpret v = .ok t) ↔ IsProfile v := by
  cases v with
  | null => exact ⟨fun _ => .null, fun _ => ⟨_, rfl⟩⟩
  | object members =>
      have hobject : (∃ t, interpret (.object members) = .ok t) ↔
          ∃ draft, applyMembers {} members = .ok draft := by
        rw [interpret]
        cases applyMembers {} members with
        | error mismatch => exact ⟨nofun, nofun⟩
        | ok draft => exact ⟨fun _ => ⟨draft, rfl⟩, fun _ => ⟨_, rfl⟩⟩
      rw [hobject, applyMembers_isOk_iff]
      exact ⟨.object, fun h => by cases h; assumption⟩
  | boolean b => exact ⟨nofun, nofun⟩
  | number cs => exact ⟨nofun, nofun⟩
  | string s => exact ⟨nofun, nofun⟩
  | array found => exact ⟨nofun, nofun⟩

/-!
## What can be loaded
-/

/-- In a profile nothing is nested deeper than the strings of a command. -/
theorem IsProfile.fitsIn {v : Json.Value} (h : IsProfile v) (depth : Nat) :
    v.FitsIn (depth + 3) := by
  have helement : ∀ e : Json.Value, (e = .null ∨ ∃ s, e = .string s) → e.FitsIn depth := by
    rintro e (rfl | ⟨s, rfl⟩) <;> cases depth <;> trivial
  have hcommand : ∀ c, IsCommand c → c.FitsIn (depth + 1) := by
    rintro c (_ | hstrings)
    · trivial
    · exact fun e he => helement e (hstrings e he)
  have htool : ∀ o, IsToolObject o → o.FitsIn (depth + 2) := by
    rintro o (_ | hcommands)
    · trivial
    · exact fun m hm => hcommand m.2 (hcommands m hm).2
  cases h with
  | null => trivial
  | object tools => exact fun m hm => htool m.2 (tools m hm).2

theorem IsProfile.ne_number {v : Json.Value} (h : IsProfile v) (cs : List Char) :
    v ≠ .number cs := by
  rintro rfl
  cases h

/-- A text gives the toolchain that the value it begins with gives, and no other. -/
theorem decode_eq_ok_iff {content : Bytes} {t : Toolchain} :
    decode content = .ok t ↔
      ∃ v found, Json.BeginsWith content v ∧ interpret v = .ok found ∧ found.withDefaults = t := by
  constructor
  · intro h
    unfold decode at h
    split at h
    · cases h
    · next v hread =>
      split at h
      · cases h
      · next found hfound =>
        have hprofile : IsProfile v := (interpret_isOk_iff v).1 ⟨found, hfound⟩
        have hbegins := Json.beginsWith_of_readFirst hread hprofile.ne_number
        exact ⟨v, found, hbegins, hfound, Except.ok.inj h⟩
  · rintro ⟨v, found, hbegins, hfound, rfl⟩
    have hprofile : IsProfile v := (interpret_isOk_iff v).1 ⟨found, hfound⟩
    have hread := hbegins.readFirst_eq (hprofile.fitsIn 9997)
    simp only [decode, hread, hfound]

theorem decode_isOk_iff (content : Bytes) :
    (∃ t, decode content = .ok t) ↔ ProfileText content := by
  constructor
  · rintro ⟨t, h⟩
    obtain ⟨v, found, hbegins, hfound, -⟩ := decode_eq_ok_iff.1 h
    obtain ⟨blanks, written, rest, hcontent, hblanks, htext, -⟩ := hbegins
    exact ⟨blanks, written, rest, v, hcontent, hblanks, htext,
      (interpret_isOk_iff v).1 ⟨found, hfound⟩⟩
  · rintro ⟨blanks, written, rest, v, hcontent, hblanks, htext, hprofile⟩
    -- Neither null nor an object is a number, which something behind it could continue.
    have hends : Json.EndsValue v (symbols rest) :=
      fun cs hcs => absurd hcs (hprofile.ne_number cs)
    obtain ⟨found, hfound⟩ := (interpret_isOk_iff v).2 hprofile
    exact ⟨_, decode_eq_ok_iff.2
      ⟨v, found, ⟨blanks, written, rest, hcontent, hblanks, htext, hends⟩, hfound, rfl⟩⟩

/-- A profile is loaded exactly if the file begins, behind white space, with the text of a value
that suits the schema, whatever follows it.  Any other content is refused as defective, and gives
no toolchain. -/
theorem load_isOk_iff_profileText {files : FileTree} {path content : Bytes}
    (h : files.read path = .ok content) :
    ((∃ t, load files path = .ok t) ↔ ProfileText content) ∧
    (¬ ProfileText content → ∃ defect, load files path = .error (.defective path defect)) := by
  rw [← decode_isOk_iff]
  cases hdecode : decode content with
  | error defect =>
      have hload : load files path = .error (.defective path defect) := by
        simp only [load, h, hdecode]
      exact ⟨by simp [hload], fun _ => ⟨defect, hload⟩⟩
  | ok t =>
      have hload : load files path = .ok t := by simp only [load, h, hdecode]
      exact ⟨by simp [hload], fun hnot => absurd ⟨t, rfl⟩ hnot⟩

/-- A profile with a name in capitals, one with an escape in it and one with a long s, with nulls in
all places and with something else behind it. -/
theorem load_isOk_iff_profileText_folded :
    let content := text "\t\x7b\"COMPILER\": \x7b\"\\u0063md\": [\"cc\", null]\x7d , " ++
      text "\"a\u017f\u017fembler\": null\x7d\x7d"
    (⟨[], [([text "p"], .file content)]⟩ : FileTree).read (text "p") = .ok content ∧
      ProfileText content := by
  intro content
  have hread : (⟨[], [([text "p"], .file content)]⟩ : FileTree).read (text "p") = .ok content := by
    decide +kernel
  refine ⟨hread, (load_isOk_iff_profileText hread).1.1 ⟨⟨some [text "gcc", text "-E", text "-P"],
    some [text "cc", []], some [text "tmasm"]⟩, ?_⟩⟩
  decide +kernel

end Profile
end CrossCompiler
