import CrossCompiler.Proofs.Toolchain.Profile
import CrossCompiler.Proofs.Toolchain.Schema

/-!
# The last command given for a tool

A profile may name a tool several times, and give it several commands each time.  What happens to
one tool is settled by its own commands alone, in the order of the text, wherever the members of
other tools stand between them.  A command replaces the one before it, even where it is written
over the strings of a longer one, as long as it has no null elements, which let such strings show
through.  So the last command of each tool is all that counts.
-/

namespace CrossCompiler
namespace Profile

open Utf8

/-!
## The commands of a profile
-/

/-- Whether a name is a tool's, in any case. -/
def isNameOf (tool : Tool) (name : List Char) : Bool := name.map Case.fold = toChars tool.name

/-- The commands that are given in the place of a tool's object, in the order of the text. -/
def commandsIn : Json.Value → List Json.Value
  | .object members => (members.filter fun m => m.1.map Case.fold = "cmd".toList).map Prod.snd
  | _ => []

/-- The commands that a profile gives for a tool, in the order of the text. -/
def commandsFor (tool : Tool) : Json.Value → List Json.Value
  | .object members => (members.filter fun m => isNameOf tool m.1).flatMap fun m => commandsIn m.2
  | _ => []

/-- The last command that a profile gives for a tool. -/
def lastCommand (tool : Tool) (v : Json.Value) : Option Json.Value := (commandsFor tool v).getLast?

/-- No command of a profile has a null element. -/
def HasNoNulls (v : Json.Value) : Prop :=
  ∀ tool elements, .array elements ∈ commandsFor tool v → .null ∉ elements

/-- What the command of a tool comes to, given the last one in the profile. -/
inductive Settles (tool : Tool) : Option Json.Value → List Bytes → Prop
  | given {strings : List (List Char)} (nonempty : strings ≠ []) :
      Settles tool (some (.array (strings.map .string))) (strings.map Utf8.encode)
  | empty : Settles tool (some (.array [])) (Toolchain.defaultCommand tool)
  | null : Settles tool (some .null) (Toolchain.defaultCommand tool)
  | missing : Settles tool none (Toolchain.defaultCommand tool)

theorem isName_name (tool : Tool) (name : List Char) :
    Case.isName tool.name (Utf8.encode name) = true ↔ isNameOf tool name = true := by
  rw [isNameOf, decide_eq_true_eq]
  cases tool with
  | preprocessor => exact Case.isName_encode "preprocessor" name
  | compiler => exact Case.isName_encode "compiler" name
  | assembler => exact Case.isName_encode "assembler" name

theorem eq_of_isNameOf {tool other : Tool} {name : List Char} (h : isNameOf tool name = true)
    (hother : isNameOf other name = true) : tool = other := by
  rw [isNameOf, decide_eq_true_eq] at h hother
  -- A tool is found again by its own name.
  have hfound : toolNamed? (toChars tool.name) = some other := by
    rw [← h, hother, toolNamed?_name]
  rw [toolNamed?_name] at hfound
  exact Option.some.inj hfound

theorem isNameOf_of_toolNamed? {name : List Char} {tool : Tool} (h : toolNamed? name = some tool) :
    isNameOf tool name = true := by
  have hname := List.find?_some h
  exact (isName_name tool name).1 hname

/-!
## One tool at a time
-/

/-- Gives commands for a tool, one after the other. -/
def giveAll (slot : Slot) (commands : List Json.Value) : Except Mismatch Slot :=
  commands.foldlM setCommand slot

section GiveAll

variable {slot next : Slot}

theorem giveAll_cons_eq_ok {command : Json.Value} {commands : List Json.Value} :
    giveAll slot (command :: commands) = .ok next ↔
      ∃ mid, setCommand slot command = .ok mid ∧ giveAll mid commands = .ok next :=
  bind_eq_ok_iff

theorem giveAll_append_eq_ok {front back : List Json.Value} :
    giveAll slot (front ++ back) = .ok next ↔
      ∃ mid, giveAll slot front = .ok mid ∧ giveAll mid back = .ok next := by
  rw [giveAll, List.foldlM_append, bind_eq_ok_iff]
  rfl

/-- What each command keeps, all of them keep. -/
theorem giveAll_invariant {Keeps : Slot → Prop} {commands : List Json.Value}
    (hstep : ∀ {before after c}, Keeps before → setCommand before c = .ok after → Keeps after)
    (hslot : Keeps slot) (h : giveAll slot commands = .ok next) : Keeps next := by
  induction commands generalizing slot with
  | nil =>
      obtain rfl := Except.ok.inj h
      exact hslot
  | cons c commands ih =>
      obtain ⟨mid, hmid, hrest⟩ := giveAll_cons_eq_ok.1 h
      exact ih (hstep hslot hmid) hrest

theorem giveAll_of_applyTool {members : List (List Char × Json.Value)}
    (h : applyTool slot members = .ok next) :
    giveAll slot (commandsIn (.object members)) = .ok next := by
  induction members generalizing slot with
  | nil => exact h
  | cons m members ih =>
      obtain ⟨name, c⟩ := m
      rw [applyTool] at h
      split_ifs at h with hname
      obtain ⟨mid, hmid, hrest⟩ := bind_eq_ok_iff.1 h
      have hcommands : commandsIn (.object ((name, c) :: members)) =
          c :: commandsIn (.object members) := by
        simp [commandsIn, (isName_cmd name).1 hname]
      rw [hcommands]
      exact giveAll_cons_eq_ok.2 ⟨mid, hmid, ih hrest⟩

theorem giveAll_of_setTool {v : Json.Value} (h : setTool slot v = .ok next) :
    giveAll slot (commandsIn v) = .ok next := by
  cases (setTool_isOk_iff slot v).1 ⟨next, h⟩ with
  | null => exact h
  | object => exact giveAll_of_applyTool h

end GiveAll

namespace Draft

variable (draft : Draft) (slot : Slot)

@[simp]
theorem slot_setSlot_self (tool : Tool) : (draft.setSlot tool slot).slot tool = slot := by
  cases tool <;> rfl

theorem slot_setSlot_of_ne {tool other : Tool} (h : tool ≠ other) :
    (draft.setSlot other slot).slot tool = draft.slot tool := by
  cases other <;> cases tool <;> simp_all [Draft.setSlot, Draft.slot]

end Draft

/-- Each tool is given its own commands, whatever members stand between them. -/
theorem giveAll_of_applyMembers {draft next : Draft} {members : List (List Char × Json.Value)}
    (h : applyMembers draft members = .ok next) (tool : Tool) :
    giveAll (draft.slot tool) (commandsFor tool (.object members)) = .ok (next.slot tool) := by
  induction members generalizing draft with
  | nil =>
      obtain rfl := Except.ok.inj h
      rfl
  | cons m members ih =>
      obtain ⟨name, v⟩ := m
      rw [applyMembers] at h
      cases hnamed : toolNamed? name with
      | none =>
          rw [hnamed] at h
          cases h
      | some named =>
          rw [hnamed] at h
          obtain ⟨slot, hslot, hrest⟩ := bind_eq_ok_iff.1 h
          have hothers := ih hrest
          have hname := isNameOf_of_toolNamed? hnamed
          by_cases htool : tool = named
          · subst htool
            have hcommands : commandsFor tool (.object ((name, v) :: members)) =
                commandsIn v ++ commandsFor tool (.object members) := by
              simp [commandsFor, hname]
            rw [Draft.slot_setSlot_self] at hothers
            rw [hcommands]
            exact giveAll_append_eq_ok.2 ⟨slot, giveAll_of_setTool hslot, hothers⟩
          · have hcommands : commandsFor tool (.object ((name, v) :: members)) =
                commandsFor tool (.object members) := by
              have hnot : ¬ isNameOf tool name = true := fun h => htool (eq_of_isNameOf h hname)
              simp [commandsFor, hnot]
            rw [Draft.slot_setSlot_of_ne _ _ htool] at hothers
            rw [hcommands]
            exact hothers

/-- What a profile gives for a tool is what its commands leave there. -/
theorem exists_giveAll_of_interpret {v : Json.Value} {t : Toolchain} (h : interpret v = .ok t)
    (tool : Tool) :
    ∃ slot, giveAll {} (commandsFor tool v) = .ok slot ∧ t.given tool = slot.current := by
  cases (interpret_isOk_iff v).1 ⟨t, h⟩ with
  | null =>
      obtain rfl := Except.ok.inj h
      exact ⟨{}, rfl, by cases tool <;> rfl⟩
  | @object members tools =>
      rw [interpret] at h
      cases happly : applyMembers {} members with
      | error mismatch =>
          rw [happly] at h
          cases h
      | ok draft =>
          rw [happly] at h
          obtain rfl := Except.ok.inj h
          have hslot := giveAll_of_applyMembers happly tool
          exact ⟨draft.slot tool, by cases tool <;> exact hslot, Toolchain.given_ofTools _ tool⟩

/-!
## The last command
-/

/-- A command without null elements replaces whatever was given before. -/
theorem setCommand_settles {slot next : Slot} {c : Json.Value} (h : setCommand slot c = .ok next)
    (hnulls : ∀ elements, c = .array elements → .null ∉ elements) {t : Toolchain} {tool : Tool}
    (hgiven : t.given tool = next.current) : Settles tool (some c) (t.effective tool) := by
  rw [Toolchain.effective, hgiven]
  cases (setCommand_isOk_iff slot c).1 ⟨next, h⟩ with
  | null =>
      obtain rfl := Except.ok.inj h
      exact .null
  | @array elements strings =>
      -- Without nulls every element is a string.
      obtain ⟨cs, rfl⟩ : ∃ cs : List (List Char), elements = cs.map .string := by
        have hrange : elements ∈ Set.range (List.map Json.Value.string) := by
          rw [Set.range_list_map]
          intro e he
          rcases strings e he with rfl | ⟨s, rfl⟩
          · exact absurd he (hnulls elements rfl)
          · exact ⟨s, rfl⟩
        obtain ⟨cs, hcs⟩ := hrange
        exact ⟨cs, hcs.symm⟩
      cases cs with
      | nil =>
          obtain rfl := Except.ok.inj h
          exact .empty
      | cons s cs =>
          rw [List.map_cons, setCommand] at h
          · rw [← List.map_cons, overwrite_strings] at h
            obtain rfl := Except.ok.inj h
            exact .given (List.cons_ne_nil s cs)
          · exact List.cons_ne_nil _ _

/-- The command of each tool is settled by the last one that is given for it. -/
theorem settles_of_interpret {v : Json.Value} {found : Toolchain} (h : interpret v = .ok found)
    (hnulls : HasNoNulls v) (tool : Tool) :
    Settles tool (lastCommand tool v) (found.effective tool) := by
  obtain ⟨slot, hslot, hgiven⟩ := exists_giveAll_of_interpret h tool
  rcases List.eq_nil_or_concat' (commandsFor tool v) with hnone | ⟨front, last, hlast⟩
  · rw [hnone] at hslot
    obtain rfl := Except.ok.inj hslot
    rw [lastCommand, hnone, Toolchain.effective, hgiven]
    exact .missing
  · rw [hlast] at hslot
    obtain ⟨mid, -, hend⟩ := giveAll_append_eq_ok.1 hslot
    obtain ⟨after, hafter, hdone⟩ := giveAll_cons_eq_ok.1 hend
    obtain rfl := Except.ok.inj hdone
    rw [lastCommand, hlast, List.getLast?_concat]
    refine setCommand_settles hafter ?_ hgiven
    rintro elements rfl
    exact hnulls tool elements (hlast ▸ List.mem_append_right _ (List.mem_singleton_self _))

theorem Settles.unique {tool : Tool} {last : Option Json.Value} {command other : List Bytes}
    (h : Settles tool last command) (h' : Settles tool last other) : command = other := by
  cases h with
  | @given strings nonempty =>
      generalize hlast : some (Json.Value.array (strings.map .string)) = last at h'
      cases h' with
      | @given strings' =>
          have hstrings : strings.map Json.Value.string = strings'.map Json.Value.string :=
            Json.Value.array.inj (Option.some.inj hlast)
          rw [List.map_injective_iff.2 (fun _ _ => Json.Value.string.inj) hstrings]
      | empty =>
          have hnil := Json.Value.array.inj (Option.some.inj hlast)
          exact absurd (List.map_eq_nil_iff.1 hnil) nonempty
      | null => cases hlast
      | missing => cases hlast
  | empty =>
      generalize hlast : some (Json.Value.array []) = last at h'
      cases h' with
      | given nonempty =>
          have hnil := Json.Value.array.inj (Option.some.inj hlast)
          exact absurd (List.map_eq_nil_iff.1 hnil.symm) nonempty
      | empty => rfl
      | null => rfl
      | missing => rfl
  | null =>
      cases h' with
      | null => rfl
  | missing =>
      cases h' with
      | missing => rfl

theorem exists_settles_of_load {files : FileTree} {path content : Bytes} {v : Json.Value}
    {t : Toolchain} (hread : files.read path = .ok content) (hload : load files path = .ok t)
    (hbegins : Json.BeginsWith content v) (hnulls : HasNoNulls v) (tool : Tool) :
    ∃ command, t.given tool = some command ∧ Settles tool (lastCommand tool v) command := by
  obtain ⟨content', hread', hdecode⟩ := load_eq_ok_iff.1 hload
  obtain rfl := Except.ok.inj (hread.symm.trans hread')
  obtain ⟨v', found, hbegins', hfound, rfl⟩ := decode_eq_ok_iff.1 hdecode
  -- The value that was interpreted is the only one that the content begins with.
  obtain rfl := hbegins.unique hbegins'
  exact ⟨found.effective tool, Toolchain.given_withDefaults found tool,
    settles_of_interpret hfound hnulls tool⟩

/-- The command of each tool is the last one that the profile gives for it, if that is an array with
something in it, and the default one otherwise, as long as no command has a null element.  So two
profiles of which this is true are loaded as the same toolchain if they agree in the last command
of each tool, in whatever order and however often they name the tools, and however their values
are written down. -/
theorem load_settles_last_commands {files : FileTree} {path content : Bytes} {v : Json.Value}
    {t : Toolchain} (hread : files.read path = .ok content) (hload : load files path = .ok t)
    (hbegins : Json.BeginsWith content v) (hnulls : HasNoNulls v) :
    (∀ tool, ∃ command, t.given tool = some command ∧
      Settles tool (lastCommand tool v) command) ∧
    ∀ {files' path' content' v' t'}, FileTree.read files' path' = .ok content' →
      load files' path' = .ok t' → Json.BeginsWith content' v' → HasNoNulls v' →
      (∀ tool, lastCommand tool v' = lastCommand tool v) → t' = t := by
  constructor
  · intro tool
    exact exists_settles_of_load hread hload hbegins hnulls tool
  · intro files' path' content' v' t' hread' hload' hbegins' hnulls' hlast
    apply Toolchain.eq_of_given
    intro tool
    obtain ⟨command, hgiven, hcommand⟩ := exists_settles_of_load hread hload hbegins hnulls tool
    obtain ⟨command', hgiven', hcommand'⟩ :=
      exists_settles_of_load hread' hload' hbegins' hnulls' tool
    rw [hlast tool] at hcommand'
    rw [hgiven, hgiven', hcommand.unique hcommand']

/-- A profile that gives the compiler a second command with fewer strings than the first, and one
that writes the same last command in capitals and with an escape, and has something else behind
it. -/
theorem load_settles_last_commands_respelled :
    ∃ t, load ⟨[], [([text "p"], .file (text
        "\x7b\"compiler\":\x7b\"cmd\":[\"a\",\"b\"],\"cmd\":[\"cc\"]\x7d\x7d"))]⟩
        (text "p") = .ok t ∧
      load ⟨[], [([text "p"], .file (text
        "\t\x7b\"COMPILER\": \x7b\"Cmd\":[\"c\\u0063\"]\x7d\x7d]"))]⟩
        (text "p") = .ok t ∧
      t.given .compiler = some [text "cc"] := by
  have hread : ∀ content, (⟨[], [([text "p"], .file content)]⟩ : FileTree).read (text "p") =
      .ok content := fun _ => rfl
  have hfirst : Json.BeginsWith
      (text "\x7b\"compiler\":\x7b\"cmd\":[\"a\",\"b\"],\"cmd\":[\"cc\"]\x7d\x7d")
      (.object [("compiler".toList, .object [
        ("cmd".toList, .array [.string ['a'], .string ['b']]),
        ("cmd".toList, .array [.string ['c', 'c']])])]) :=
    Json.beginsWith_of_readFirst (by cbv) (by rintro _ ⟨⟩)
  have hsecond : Json.BeginsWith
      (text "\t\x7b\"COMPILER\": \x7b\"Cmd\":[\"c\\u0063\"]\x7d\x7d]")
      (.object [("COMPILER".toList, .object [("Cmd".toList, .array [.string ['c', 'c']])])]) :=
    Json.beginsWith_of_readFirst (by cbv) (by rintro _ ⟨⟩)
  have hnulls : HasNoNulls (.object [("compiler".toList, .object [
      ("cmd".toList, .array [.string ['a'], .string ['b']]),
      ("cmd".toList, .array [.string ['c', 'c']])])]) := by
    rintro (_ | _ | _) elements helements hnull
    · cases helements
    · change _ ∈ [Json.Value.array [.string ['a'], .string ['b']],
        .array [.string ['c', 'c']]] at helements
      simp only [List.mem_cons, Json.Value.array.injEq, List.not_mem_nil, or_false] at helements
      rcases helements with rfl | rfl <;> simp at hnull
    · cases helements
  have hnulls' : HasNoNulls (.object [("COMPILER".toList, .object [
      ("Cmd".toList, .array [.string ['c', 'c']])])]) := by
    rintro (_ | _ | _) elements helements hnull
    · cases helements
    · obtain rfl := Json.Value.array.inj (List.mem_singleton.1 helements)
      simp at hnull
    · cases helements
  have hlast : lastCommand .compiler (.object [("compiler".toList, .object [
      ("cmd".toList, .array [.string ['a'], .string ['b']]),
      ("cmd".toList, .array [.string ['c', 'c']])])]) =
        some (.array ([['c', 'c']].map .string)) := by cbv
  obtain ⟨t, hload⟩ : ∃ t, load ⟨[], [([text "p"], .file (text
      "\x7b\"compiler\":\x7b\"cmd\":[\"a\",\"b\"],\"cmd\":[\"cc\"]\x7d\x7d"))]⟩
      (text "p") = .ok t :=
    ⟨⟨some [text "gcc", text "-E", text "-P"], some [text "cc"], some [text "tmasm"]⟩,
      by decide +kernel⟩
  obtain ⟨u, hload'⟩ : ∃ u, load ⟨[], [([text "p"], .file (text
      "\t\x7b\"COMPILER\": \x7b\"Cmd\":[\"c\\u0063\"]\x7d\x7d]"))]⟩ (text "p") = .ok u :=
    ⟨⟨some [text "gcc", text "-E", text "-P"], some [text "cc"], some [text "tmasm"]⟩,
      by decide +kernel⟩
  obtain ⟨hgiven, hsame⟩ := load_settles_last_commands (hread _) hload hfirst hnulls
  obtain rfl : u = t := hsame (hread _) hload' hsecond hnulls' (by rintro (_ | _ | _) <;> cbv)
  obtain ⟨command, hcommand, hsettles⟩ := hgiven .compiler
  rw [hlast] at hsettles
  obtain rfl := hsettles.unique (.given (List.cons_ne_nil _ _))
  exact ⟨u, hload, hload', hcommand⟩

end Profile
end CrossCompiler
