import CrossCompiler.Toolchain.Profile
import CrossCompiler.Proofs.FileTree
import CrossCompiler.Proofs.Json.Indented
import CrossCompiler.Proofs.Toolchain.Basic

/-!
# Saved profiles are loaded back

The text of a profile is indented JSON: an object with a member for each tool, each an
object with the one member `cmd`, whose value is null or an array of strings.  So it is read
back value by value.  All that is lost on the way are the stray bytes of the strings, for
each of which a replacement character comes back.
-/

namespace CrossCompiler
namespace Profile

open Utf8 Json

/-!
## The text of a profile as JSON
-/

/-- A command as a JSON value. -/
def commandValue : Option (List Bytes) → Json.Value
  | none => .null
  | some args => .array (args.map fun arg => .string (toChars arg))

/-- What is said about a tool, as a JSON value. -/
def toolValue (t : Toolchain) (tool : Tool) : Json.Value :=
  .object [("cmd".toList, commandValue (t.given tool))]

/-- A toolchain as a JSON value. -/
def profileValue (t : Toolchain) : Json.Value :=
  .object (Tool.all.map fun tool => (toChars tool.name, toolValue t tool))

theorem takes_encodeCommand (command : Option (List Bytes)) (depth : Nat) :
    Reader.Takes (value (depth + 1)) (encodeCommand command) (commandValue command) := by
  cases command with
  | none => exact takes_null (depth + 1)
  | some args =>
      cases args with
      | nil => exact takes_emptyArray depth
      | cons arg args =>
          have frame : Frame "      " "\n    ]" ']' := ⟨fun _ => rfl, fun _ => rfl, by decide⟩
          have helements : List.Forall₂ (Reader.Takes (value depth))
              ((arg :: args).map (writeString .escaped))
              ((arg :: args).map fun arg => .string (toChars arg)) := by
            rw [List.forall₂_map_left_iff, List.forall₂_map_right_iff, List.forall₂_same]
            exact fun arg _ => takes_string .escaped depth arg
          have hread := takes_array frame helements (List.cons_ne_nil _ _)
          rw [lines, List.map_map] at hread
          exact hread

/-- What is written for a tool behind its name. -/
def writtenTool (t : Toolchain) (tool : Tool) : Bytes :=
  text "\x7b\n" ++ lines "    " [writeMember "cmd".toList (encodeCommand (t.given tool))] ++
    text "\n  \x7d"

theorem takes_writtenTool (t : Toolchain) (tool : Tool) (depth : Nat) :
    Reader.Takes (value (depth + 2)) (writtenTool t tool) (toolValue t tool) := by
  have frame : Frame "    " "\n  \x7d" '\x7d' := ⟨fun _ => rfl, fun _ => rfl, by decide⟩
  have hcommand := takes_member (takes_encodeCommand (t.given tool) depth) "cmd".toList
  exact takes_object frame (.cons hcommand .nil) (List.cons_ne_nil _ _)

/-- No character of a tool's name is escaped. -/
theorem name_written (tool : Tool) :
    (toChars tool.name).flatMap (writeChar .escaped) = tool.name := by
  cases tool <;> rfl

theorem encodeTool_eq (t : Toolchain) (tool : Tool) :
    encodeTool t tool = text "  " ++ writeMember (toChars tool.name) (writtenTool t tool) := by
  have hquote : text "  \"" = text "  " ++ text "\"" := rfl
  -- The layout of the tool's object is one literal with the name of its member in it.
  have hmiddle : text "\": \x7b\n    \"cmd\": " = text "\": " ++ (text "\x7b\n" ++ (text "    " ++
      (text "\"" ++ ("cmd".toList.flatMap (writeChar .escaped) ++ text "\": ")))) := rfl
  have hline : lines "    " [writeMember "cmd".toList (encodeCommand (t.given tool))] =
      text "    " ++ writeMember "cmd".toList (encodeCommand (t.given tool)) := rfl
  rw [encodeTool, hquote, hmiddle, writtenTool, hline, writeMember, name_written, writeMember]
  simp only [List.append_assoc]

theorem encode_eq (t : Toolchain) :
    Profile.encode t = text "\x7b\n" ++
      lines "  " (Tool.all.map fun tool => writeMember (toChars tool.name) (writtenTool t tool)) ++
      text "\n\x7d" ++ text "\n" := by
  have hend : text "\n\x7d\n" = text "\n\x7d" ++ text "\n" := rfl
  rw [Profile.encode, hend, lines, List.map_map, ← List.append_assoc, funext (encodeTool_eq t)]
  rfl

theorem readFirst_encode (t : Toolchain) : readFirst (Profile.encode t) = .ok (profileValue t) := by
  have frame : Frame "  " "\n\x7d" '\x7d' := ⟨fun _ => rfl, fun _ => rfl, by decide⟩
  have hmembers : List.Forall₂ (Reader.Takes (member (value 9999)))
      (Tool.all.map fun tool => writeMember (toChars tool.name) (writtenTool t tool))
      (Tool.all.map fun tool => (toChars tool.name, toolValue t tool)) := by
    rw [List.forall₂_map_left_iff, List.forall₂_map_right_iff, List.forall₂_same]
    exact fun tool _ => takes_member (takes_writtenTool t tool 9997) _
  rw [encode_eq]
  exact readFirst_of_takes (takes_object frame hmembers (List.cons_ne_nil _ _)) _

/-!
## What a profile says
-/

/-- A command with all its strings read and written down again. -/
def rewritten (command : Option (List Bytes)) : Option (List Bytes) :=
  command.map (List.map fun arg => Utf8.encode (toChars arg))

/-- Strings are written over whatever stands there. -/
theorem overwrite_strings (strings : List (List Char)) (old : List Bytes) :
    overwrite (strings.map .string) old =
      .ok (strings.map Utf8.encode, old.drop strings.length) := by
  induction strings generalizing old with
  | nil => rfl
  | cons s strings ih =>
      rw [List.map_cons, overwrite, ih old.tail, List.length_cons, ← List.drop_one, List.drop_drop,
        Nat.add_comm]
      rfl

theorem setCommand_commandValue (command : Option (List Bytes)) :
    setCommand {} (commandValue command) = .ok ⟨rewritten command, []⟩ := by
  cases command with
  | none => rfl
  | some args =>
      cases args with
      | nil => rfl
      | cons arg args =>
          have hover : overwrite ((arg :: args).map fun arg => .string (toChars arg)) [] =
              .ok ((arg :: args).map fun arg => Utf8.encode (toChars arg), []) := by
            have hstrings := overwrite_strings ((arg :: args).map toChars) []
            rw [List.map_map, List.map_map, List.drop_nil] at hstrings
            exact hstrings
          rw [commandValue, List.map_cons, setCommand]
          · rw [List.map_cons] at hover
            simp only [Option.getD_none, List.append_nil, hover]
            rfl
          · exact List.cons_ne_nil _ _

theorem setTool_toolValue (t : Toolchain) (tool : Tool) :
    setTool {} (toolValue t tool) = .ok ⟨rewritten (t.given tool), []⟩ := by
  have hname : Case.isName (text "cmd") (Utf8.encode "cmd".toList) = true := by decide
  rw [toolValue, setTool, applyTool, if_pos hname, setCommand_commandValue]
  rfl

theorem toolNamed?_name (tool : Tool) : toolNamed? (toChars tool.name) = some tool := by
  cases tool <;> decide

theorem applyMembers_tool {draft : Draft} {tool : Tool} (hslot : draft.slot tool = {})
    (t : Toolchain) (rest : List (List Char × Json.Value)) :
    applyMembers draft ((toChars tool.name, toolValue t tool) :: rest) =
      applyMembers (draft.setSlot tool ⟨rewritten (t.given tool), []⟩) rest := by
  rw [applyMembers, toolNamed?_name]
  simp only [hslot, setTool_toolValue]
  rfl

theorem interpret_profileValue (t : Toolchain) :
    interpret (profileValue t) = .ok (.ofTools fun tool => rewritten (t.given tool)) := by
  simp only [profileValue, interpret, Tool.all, List.map_cons, List.map_nil]
  -- No tool has been given a command before its own member comes.
  rw [applyMembers_tool rfl, applyMembers_tool rfl, applyMembers_tool rfl]
  rfl

theorem decode_encode (t : Toolchain) : Profile.decode (Profile.encode t) =
    .ok (Toolchain.ofTools fun tool => rewritten (t.given tool)).withDefaults := by
  rw [Profile.decode, readFirst_encode]
  simp only [interpret_profileValue]

/-!
## Saving and loading
-/

/-- The second toolchain is the first one with one replacement character in the place of each
byte of its strings at which no character begins. -/
def Mends (t u : Toolchain) : Prop :=
  ∀ tool, Option.Rel (List.Forall₂ Utf8.Mends) (t.given tool) (u.given tool)

theorem forall₂_mends_iff {args others : List Bytes} :
    List.Forall₂ Utf8.Mends args others ↔
      others = args.map fun arg => Utf8.encode (toChars arg) := by
  have hmends : Utf8.Mends = fun arg other => Utf8.encode (toChars arg) = other := by
    ext arg other
    rw [Utf8.mends_iff, eq_comm]
  rw [hmends, ← List.forall₂_map_left_iff, List.forall₂_eq_eq_eq, eq_comm]

theorem rel_mends_iff {command other : Option (List Bytes)} :
    Option.Rel (List.Forall₂ Utf8.Mends) command other ↔ other = rewritten command := by
  constructor
  · intro h
    cases h with
    | some h =>
        rw [forall₂_mends_iff.1 h]
        rfl
    | none => rfl
  · rintro rfl
    cases command with
    | none => exact .none
    | some args => exact .some (forall₂_mends_iff.2 rfl)

theorem mends_iff {t u : Toolchain} :
    Mends t u ↔ u = .ofTools fun tool => rewritten (t.given tool) := by
  constructor
  · intro h
    refine Toolchain.eq_of_given fun tool => ?_
    rw [Toolchain.given_ofTools]
    exact rel_mends_iff.1 (h tool)
  · rintro rfl tool
    rw [Toolchain.given_ofTools]
    exact rel_mends_iff.2 rfl

theorem rewritten_of_valid {args : List Bytes}
    (h : ∀ arg ∈ args, ∃ cs, arg = Utf8.encode cs) : rewritten (some args) = some args := by
  have hmap : args.map (fun arg => Utf8.encode (toChars arg)) = args.map id :=
    List.map_congr_left fun arg harg => encode_toChars (isValid_iff.2 (h arg harg))
  rw [rewritten, Option.map_some, hmap, List.map_id]

/-- The profile of a normal toolchain gives this toolchain. -/
theorem decode_encode_of_isNormal {t : Toolchain} (h : t.IsNormal) :
    decode (encode t) = .ok t := by
  have hkept : (Toolchain.ofTools fun tool => rewritten (t.given tool)) = t := by
    apply Toolchain.eq_of_given
    intro tool
    obtain ⟨args, hgiven, -, hargs⟩ := h tool
    rw [Toolchain.given_ofTools, hgiven, rewritten_of_valid hargs]
  rw [decode_encode, hkept, h.withDefaults_eq]

theorem load_eq_ok_iff {files : FileTree} {path : Bytes} {t : Toolchain} :
    load files path = .ok t ↔
      ∃ content, files.read path = .ok content ∧ decode content = .ok t := by
  rw [load]
  cases files.read path with
  | error fault =>
      constructor
      · intro h
        dsimp only at h
        split_ifs at h
      · rintro ⟨content, hread, -⟩
        cases hread
  | ok content =>
      dsimp only
      cases hdecode : decode content with
      | error defect => simp [hdecode]
      | ok found => simp [hdecode]

theorem read_of_save {files saved : FileTree} {path : Bytes} {t : Toolchain}
    (h : save files path t = .ok saved) : saved.read path = .ok (encode t) := by
  rw [save] at h
  split at h
  · cases h
  · next written hwrite =>
    obtain rfl := Except.ok.inj h
    exact FileTree.read_of_write hwrite

/-- A profile that was saved is loaded as the toolchain it was saved from, once each stray
byte is replaced and the defaults are filled in.  A toolchain that gives every tool a command
of valid strings comes back as it was. -/
theorem load_of_save {files saved : FileTree} {path : Bytes} {t : Toolchain}
    (h : save files path t = .ok saved) :
    ∃ u, (∀ v, Mends t v ↔ v = u) ∧ load saved path = .ok u.withDefaults ∧
      (t.IsNormal → load saved path = .ok t) := by
  have hload : ∀ {u}, decode (encode t) = .ok u → load saved path = .ok u :=
    fun hdecode => load_eq_ok_iff.2 ⟨_, read_of_save h, hdecode⟩
  exact ⟨_, fun v => mends_iff, hload (decode_encode t),
    fun hnormal => hload (decode_encode_of_isNormal hnormal)⟩

/-- A profile saved to a new file: no preprocessor, a compiler whose name holds a quote, a line
separator and a stray byte, and an empty command for the assembler. -/
theorem load_of_save_stray :
    ∃ saved, save .empty (text "p")
        ⟨none, some [text "\"\u2028" ++ [0xff], text "<"], some []⟩ = .ok saved ∧
      load saved (text "p") = .ok ⟨some [text "gcc", text "-E", text "-P"],
        some [text "\"\u2028\ufffd", text "<"], some [text "tmasm"]⟩ := by
  have hcompiler : Utf8.Mends (text "\"\u2028" ++ [0xff]) (text "\"\u2028\ufffd") :=
    .char '"' (.char '\u2028' (.stray (decode?_eq_none_iff.1 rfl) .nil))
  have hmended : Mends ⟨none, some [text "\"\u2028" ++ [0xff], text "<"], some []⟩
      ⟨none, some [text "\"\u2028\ufffd", text "<"], some []⟩ := by
    intro tool
    cases tool with
    | preprocessor => exact .none
    | compiler => exact .some (.cons hcompiler (.cons (.char '<' .nil) .nil))
    | assembler => exact .some .nil
  obtain ⟨saved, hsave⟩ : ∃ saved, save .empty (text "p")
      ⟨none, some [text "\"\u2028" ++ [0xff], text "<"], some []⟩ = .ok saved := ⟨_, rfl⟩
  obtain ⟨u, hunique, hload, -⟩ := load_of_save hsave
  obtain rfl := (hunique _).1 hmended
  exact ⟨saved, hsave, hload⟩

end Profile
end CrossCompiler
