import CrossCompiler.Proofs.Toolchain.Commands

/-!
# Loaded profiles are normal and stay as they are

However a profile was written, what is loaded of it is normal: every tool has a command with
something in it, and every string is valid.  No string comes into a profile but through a JSON
string, where each stray byte and each lone surrogate has been replaced, and a null element only
lets such a string show through again.  A normal toolchain is what its own profile is loaded as, so
from the first loading on nothing changes any more.  Nor does it matter what stands behind the value
that a profile begins with.
-/

namespace CrossCompiler

/-!
## The default commands
-/

theorem Toolchain.exists_encode_of_mem_defaultCommand {tool : Tool} {arg : Bytes}
    (h : arg ∈ defaultCommand tool) : ∃ cs, arg = Utf8.encode cs := by
  have htexts : ∃ words : List String, defaultCommand tool = words.map text := by
    cases tool with
    | preprocessor => exact ⟨["gcc", "-E", "-P"], rfl⟩
    | compiler => exact ⟨["rcc1"], rfl⟩
    | assembler => exact ⟨["tmasm"], rfl⟩
  obtain ⟨words, hwords⟩ := htexts
  rw [hwords] at h
  obtain ⟨word, -, rfl⟩ := List.mem_map.1 h
  exact ⟨word.toList, rfl⟩

namespace Profile

open Utf8

/-!
## The strings of a profile while it is read
-/

/-- Every string of a command is valid, and so is every string that is left behind its end. -/
def Slot.IsValid (slot : Slot) : Prop :=
  ∀ arg ∈ slot.current.getD [] ++ slot.leftover, ∃ cs, arg = Utf8.encode cs

/-- An element leaves a string of its own, or the one that stands there, or the empty one. -/
theorem overwrite_cons_cases {e : Json.Value} {elements : List Json.Value}
    {old current leftover : List Bytes}
    (h : overwrite (e :: elements) old = .ok (current, leftover)) :
    ∃ first others, current = first :: others ∧
      overwrite elements old.tail = .ok (others, leftover) ∧
      (first = old.headD [] ∨ ∃ s, first = Utf8.encode s) := by
  rcases (overwrite_isOk_iff _ old).1 ⟨_, h⟩ e List.mem_cons_self with rfl | ⟨s, rfl⟩
  · rw [overwrite_null] at h
    obtain ⟨⟨others, behind⟩, hothers, hdone⟩ := bind_eq_ok_iff.1 h
    obtain ⟨rfl, rfl⟩ := Prod.mk.inj (Except.ok.inj hdone)
    exact ⟨_, others, rfl, hothers, .inl rfl⟩
  · rw [overwrite_string] at h
    obtain ⟨⟨others, behind⟩, hothers, hdone⟩ := bind_eq_ok_iff.1 h
    obtain ⟨rfl, rfl⟩ := Prod.mk.inj (Except.ok.inj hdone)
    exact ⟨_, others, rfl, hothers, .inr ⟨s, rfl⟩⟩

theorem overwrite_valid {elements : List Json.Value} {old current leftover : List Bytes}
    (h : overwrite elements old = .ok (current, leftover))
    (hold : ∀ arg ∈ old, ∃ cs, arg = Utf8.encode cs) :
    ∀ arg ∈ current ++ leftover, ∃ cs, arg = Utf8.encode cs := by
  induction elements generalizing old current with
  | nil =>
      obtain ⟨rfl, rfl⟩ := Prod.mk.inj (Except.ok.inj h)
      exact hold
  | cons e elements ih =>
      obtain ⟨first, others, rfl, hothers, hfirst⟩ := overwrite_cons_cases h
      have htail : ∀ arg ∈ others ++ leftover, ∃ cs, arg = Utf8.encode cs :=
        ih hothers fun arg harg => hold arg (List.mem_of_mem_tail harg)
      refine List.forall_mem_cons.2 ⟨?_, htail⟩
      rcases hfirst with rfl | hstring
      · -- A null element lets show what an earlier command left, if there is anything.
        cases old with
        | nil => exact ⟨[], rfl⟩
        | cons arg old => exact hold arg List.mem_cons_self
      · exact hstring

theorem setCommand_valid {slot next : Slot} {c : Json.Value} (hslot : slot.IsValid)
    (h : setCommand slot c = .ok next) : next.IsValid := by
  cases (setCommand_isOk_iff slot c).1 ⟨next, h⟩ with
  | null =>
      obtain rfl := Except.ok.inj h
      exact List.forall_mem_nil _
  | @array elements strings =>
      cases elements with
      | nil =>
          obtain rfl := Except.ok.inj h
          exact List.forall_mem_nil _
      | cons e elements =>
          rw [setCommand] at h
          · obtain ⟨⟨current, leftover⟩, hover, hdone⟩ := bind_eq_ok_iff.1 h
            obtain rfl := Except.ok.inj hdone
            exact overwrite_valid hover hslot
          · exact List.cons_ne_nil _ _

/-- What a profile gives is normal once the defaults are filled in. -/
theorem isNormal_of_interpret {v : Json.Value} {found : Toolchain} (h : interpret v = .ok found) :
    found.withDefaults.IsNormal := by
  intro tool
  refine ⟨found.effective tool, Toolchain.given_withDefaults found tool,
    found.effective_ne_nil tool, ?_⟩
  obtain ⟨slot, hslot, hgiven⟩ := exists_giveAll_of_interpret h tool
  have hempty : Slot.IsValid {} := List.forall_mem_nil _
  have hvalid : slot.IsValid := giveAll_invariant setCommand_valid hempty hslot
  intro arg harg
  rw [Toolchain.effective, hgiven] at harg
  split at harg
  · next name arguments hcurrent =>
    apply hvalid
    rw [hcurrent]
    exact List.mem_append_left _ harg
  · exact Toolchain.exists_encode_of_mem_defaultCommand harg
  · exact Toolchain.exists_encode_of_mem_defaultCommand harg

/-!
## Saving what was loaded
-/

/-- Where a file can be read, a profile can be saved. -/
theorem exists_save_of_read {files : FileTree} {path content : Bytes}
    (h : files.read path = .ok content) (t : Toolchain) :
    ∃ saved, save files path t = .ok saved := by
  obtain ⟨saved, hwrite⟩ := FileTree.write_of_read h (encode t)
  exact ⟨saved, by rw [save, hwrite]⟩

/-- A toolchain that was loaded is normal, and the defaults have nothing to fill in.  It can be
saved where it was loaded from, and wherever it is saved it is loaded again as it was; the content
that is written there is one that loading and saving leave alone. -/
theorem load_normal_and_stable {files : FileTree} {path : Bytes} {t : Toolchain}
    (h : load files path = .ok t) :
    t.IsNormal ∧ t.withDefaults = t ∧ (∃ saved, save files path t = .ok saved) ∧
    ∀ {files' path' saved}, save files' path' t = .ok saved →
      load saved path' = .ok t ∧
      ∃ content, saved.read path' = .ok content ∧
        ∀ {files'' path''}, FileTree.read files'' path'' = .ok content →
          load files'' path'' = .ok t ∧
          ∃ again, save files'' path'' t = .ok again ∧ again.read path'' = .ok content := by
  obtain ⟨content, hread, hdecode⟩ := load_eq_ok_iff.1 h
  obtain ⟨v, found, -, hfound, rfl⟩ := decode_eq_ok_iff.1 hdecode
  have hnormal := isNormal_of_interpret hfound
  have hload : ∀ {files path}, FileTree.read files path = .ok (encode found.withDefaults) →
      load files path = .ok found.withDefaults :=
    fun hread => load_eq_ok_iff.2 ⟨_, hread, decode_encode_of_isNormal hnormal⟩
  refine ⟨hnormal, hnormal.withDefaults_eq, exists_save_of_read hread _, ?_⟩
  intro files' path' saved hsave
  have hsaved := read_of_save hsave
  refine ⟨hload hsaved, _, hsaved, ?_⟩
  intro files'' path'' hread''
  obtain ⟨again, hagain⟩ := exists_save_of_read hread'' found.withDefaults
  exact ⟨hload hread'', again, hagain, read_of_save hagain⟩

/-- Two members for the compiler, one half of a surrogate pair, a byte that is no UTF-8 and two
nulls, one where a string stood before and one behind the strings. -/
theorem load_normal_and_stable_mended :
    let content := text "\x7b\"compiler\":\x7b\"cmd\":[\"a\",\"\\ud800\"]\x7d," ++
      text "\"COMPILER\":\x7b\"cmd\":[\"" ++ 0xFF :: text "\",null,null]\x7d\x7d"
    let files : FileTree := ⟨[], [([text "p"], .file content)]⟩
    let t : Toolchain := ⟨some [text "gcc", text "-E", text "-P"],
      some [text "\ufffd", text "\ufffd", []], some [text "tmasm"]⟩
    load files (text "p") = .ok t ∧ t.IsNormal ∧
      ∃ saved, save files (text "p") t = .ok saved ∧ load saved (text "p") = .ok t := by
  intro content files t
  have hload : load files (text "p") = .ok t := by decide +kernel
  obtain ⟨hnormal, -, ⟨saved, hsave⟩, hstable⟩ := load_normal_and_stable hload
  exact ⟨hload, hnormal, saved, hsave, (hstable hsave).1⟩

/-!
## What stands behind a profile
-/

/-- What is loaded depends on the value alone that the content begins with: every other content that
begins with it is loaded as the same toolchain, and among these is the content with anything put
behind it. -/
theorem load_depends_on_first_value {files : FileTree} {path content : Bytes} {t : Toolchain}
    (hread : files.read path = .ok content) (hload : load files path = .ok t) :
    (∃ v, Json.BeginsWith content v ∧
      ∀ {files' path' content'}, FileTree.read files' path' = .ok content' →
        Json.BeginsWith content' v → load files' path' = .ok t) ∧
    ∀ {files' path' extra}, FileTree.read files' path' = .ok (content ++ extra) →
      load files' path' = .ok t := by
  obtain ⟨content', hread', hdecode⟩ := load_eq_ok_iff.1 hload
  obtain rfl := Except.ok.inj (hread.symm.trans hread')
  obtain ⟨v, found, hbegins, hfound, hdefaults⟩ := decode_eq_ok_iff.1 hdecode
  have hsame : ∀ {files' path' content'}, FileTree.read files' path' = .ok content' →
      Json.BeginsWith content' v → load files' path' = .ok t := by
    intro files' path' content' hread' hbegins'
    exact load_eq_ok_iff.2
      ⟨content', hread', decode_eq_ok_iff.2 ⟨v, found, hbegins', hfound, hdefaults⟩⟩
  have hprofile : IsProfile v := (interpret_isOk_iff v).1 ⟨found, hfound⟩
  refine ⟨⟨v, hbegins, hsame⟩, ?_⟩
  intro files' path' extra hlonger
  exact hsame hlonger (hbegins.append hprofile.ne_number extra)

/-- A null with a letter, a brace and a byte that is no UTF-8 behind it. -/
theorem load_depends_on_first_value_junk :
    load ⟨[], [([text "p"], .file (text "null" ++ (text "l\x7d" ++ [0xFF])))]⟩ (text "p") =
      .ok .standard := by
  have hread : ∀ content, (⟨[], [([text "p"], .file content)]⟩ : FileTree).read (text "p") =
      .ok content := fun _ => rfl
  have hload : load ⟨[], [([text "p"], .file (text "null"))]⟩ (text "p") = .ok .standard := by
    decide +kernel
  exact (load_depends_on_first_value (hread _) hload).2 (hread _)

end Profile
end CrossCompiler
