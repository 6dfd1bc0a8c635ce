import Mathlib
import CrossCompiler.CommandLine.Flag

/-!
# Reading arguments one by one

What the first argument does to the reading of all arguments, for each way it can be read.  An
argument that ends in a byte that ends no flag never takes the argument behind it.
-/

namespace CrossCompiler
namespace CommandLine

variable {ι : Type} (flags : List (Flag ι))

theorem Parsed.setting_setting (p : Parsed ι) (first second : List (ι × Setting)) :
    (p.setting second).setting first = p.setting (first ++ second) := by
  rw [Parsed.setting, Parsed.setting, Parsed.setting, List.append_assoc]

theorem parse_nil : parse flags [] = ⟨[], [], none⟩ := by rw [parse]

theorem parse_positional {argument : Bytes} (h : isPositional argument = true)
    (rest : List Bytes) :
    parse flags (argument :: rest) = (parse flags rest).positional argument := by
  rw [parse, if_pos h]

/-- An argument that is complete in itself sets its flags. -/
theorem parse_complete {argument : Bytes} (hflag : isPositional argument = false)
    (hdashes : argument ≠ text "--") {given : List (Flag ι × Bytes)}
    (hread : readArgument flags argument = ⟨given, .complete⟩) {settings : List (ι × Setting)}
    (hset : setAll given = (settings, none)) (rest : List Bytes) :
    parse flags (argument :: rest) = (parse flags rest).setting settings := by
  rw [parse, if_neg (by simp [hflag]), if_neg hdashes]
  simp only [hread, hset]

/-- A flag by itself is set to the argument behind it. -/
theorem parse_takesNext {argument : Bytes} (hflag : isPositional argument = false)
    (hdashes : argument ≠ text "--") {flag : Flag ι} {ifMissing : Mistake}
    (hread : readArgument flags argument = ⟨[], .takesNext flag ifMissing⟩) {value : Bytes}
    {settings : List (ι × Setting)} (hset : flag.set value = (settings, none))
    (rest : List Bytes) :
    parse flags (argument :: value :: rest) = (parse flags rest).setting settings := by
  rw [parse, if_neg (by simp [hflag]), if_neg hdashes]
  simp only [hread, setAll, hset, List.nil_append]

/-!
## Arguments that leave the next one alone
-/

/-- The reading of an argument does not ask for the next one. -/
def Reading.Closed (r : Reading ι) : Prop := ∀ flag m, r.ending ≠ .takesNext flag m

theorem readCluster_closed {last : UInt8} (hshort : findShort flags last = none) {s : Bytes}
    (hlast : s.getLast? = some last) : (readCluster flags s).Closed := by
  induction s with
  | nil => cases hlast
  | cons letter rest ih =>
      intro flag m
      rw [readCluster]
      split
      · exact nofun
      · cases hfind : findShort flags letter with
        | none => exact nofun
        | some found =>
            have hne : rest ≠ [] := by
              rintro rfl
              obtain rfl : letter = last := by simpa using hlast
              rw [hshort] at hfind
              cases hfind
            have hrest : rest.getLast? = some last := by
              rw [← hlast, List.getLast?_cons_of_ne_nil hne]
            dsimp only
            split_ifs with hequals hswitch
            · exact nofun
            · exact ih hrest flag m
            · exact nofun

theorem readLong_closed {body : Bytes} (hlong : findLong flags body = none) (argument : Bytes) :
    (readLong flags argument body).Closed := by
  intro flag m
  unfold readLong
  split
  · exact nofun
  · cases hcut : Bytes.cut? (ascii '=') body with
    | none => simp [hlong]
    | some parts =>
        obtain ⟨name, value⟩ := parts
        cases hfind : findLong flags name with
        | none => simp [hfind]
        | some found => simp [hfind]

/-- An argument takes nothing behind it if it ends in a byte that ends no flag. -/
theorem readArgument_closed {last : UInt8} (hshort : findShort flags last = none)
    (hlong : ∀ f ∈ flags, (text f.name).getLast? ≠ some last) (hdash : last ≠ ascii '-')
    {argument : Bytes} (hlast : argument.getLast? = some last) :
    (readArgument flags argument).Closed := by
  unfold readArgument
  split
  · next first second body =>
    rw [List.getLast?_cons_cons] at hlast
    split
    · next hsecond =>
      -- Behind the dashes stands something, since the argument does not end in a dash.
      have hbody : body.getLast? = some last := by
        cases body with
        | nil =>
            obtain rfl : second = last := by simpa using hlast
            exact absurd hsecond hdash
        | cons b body => rwa [List.getLast?_cons_cons] at hlast
      refine readLong_closed flags (List.find?_eq_none.2 fun f hf hname => ?_) _
      rw [decide_eq_true_eq] at hname
      exact hlong f hf (hname ▸ hbody)
    · exact readCluster_closed flags hshort hlast
  · exact nofun

/-- Whatever a closed argument sets, it is not positional, and reading goes on behind it or
stops. -/
theorem positionals_parse_closed {argument : Bytes} (hflag : isPositional argument = false)
    (hdashes : argument ≠ text "--") (hclosed : (readArgument flags argument).Closed)
    {rest : List Bytes} (hrest : (parse flags rest).positionals = []) :
    (parse flags (argument :: rest)).positionals = [] := by
  rw [parse, if_neg (by simp [hflag]), if_neg hdashes]
  generalize readArgument flags argument = reading at hclosed ⊢
  obtain ⟨given, ending⟩ := reading
  dsimp only
  obtain ⟨settings, mistake⟩ := setAll given
  cases mistake with
  | some m => rfl
  | none =>
      cases ending with
      | complete => exact hrest
      | mistaken m => rfl
      | takesNext flag m => exact absurd rfl (hclosed flag m)

end CommandLine
end CrossCompiler
