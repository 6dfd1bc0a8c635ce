import CrossCompiler.CommandLine.Driver
import CrossCompiler.Proofs.CommandLine.FileChecks
import CrossCompiler.Proofs.Compilation.Phases

/-!
# What the driver removes

A compilation is a sequence of events: tools are run, which may do anything, and the driver itself
removes what its tools have read.  A removal takes away what bears the last name of a path, so it
leaves alone whatever bears another name, wherever that stands.  The names of a C file and of its
artifacts are all different; so neither the source nor what is made of it in the end is ever
removed by the driver.  Of a source with another name this is not true: the preprocessed file of
`x.i` is `x.i` itself.
-/

namespace CrossCompiler

namespace FileTree

/-- An attempt to remove the first path changes nothing at any place that the second path leads
to, be it in the same tree or in another. -/
def RemovalSpares (removed kept : Bytes) : Prop :=
  ∀ (t u : FileTree) (place : Place) (entry : Entry), u.find kept = .ok (place, entry) →
    ((t.remove removed).toOption.getD t).lookup? place = t.lookup? place

/-- What a path leads to bears the path's last name. -/
theorem getLast?_of_find {path : Bytes} (hpath : Path.IsName (Path.final path)) {t : FileTree}
    {place : Place} {entry : Entry} (h : t.find path = .ok (place, entry)) :
    place.getLast? = some (Path.final path) := by
  obtain ⟨-, hlast, -⟩ := find_eq_ok (endsInName_of_isName hpath) h
  exact hlast.trans (getLast?_names hpath.ne_nil)

theorem removalSpares_of_final_ne {removed kept : Bytes}
    (hremoved : Path.IsName (Path.final removed)) (hkept : Path.IsName (Path.final kept))
    (hne : Path.final removed ≠ Path.final kept) :
    RemovalSpares removed kept := by
  intro t u place entry hfind
  have hother : ∀ {other : Place} {entry : Entry},
      t.find removed = .ok (other, entry) → place ≠ other := by
    rintro other entry hfound rfl
    have hsame := (getLast?_of_find hremoved hfound).symm.trans (getLast?_of_find hkept hfind)
    exact hne (Option.some.inj hsame)
  have hcleared := cleared_remove (endsInName_of_isName hremoved) t
  generalize (t.remove removed).toOption.getD t = after at hcleared ⊢
  cases hcleared with
  | file found => exact lookup?_erase_of_ne t (hother found)
  | emptyDirectory found => exact lookup?_erase_of_ne t (hother found)
  | directory => rfl
  | nothing => rfl

end FileTree

namespace Compilation

variable {σ : Type}

/-!
## Events
-/

/-- What happens to the files in a compilation. -/
inductive Event where
  /-- A tool is run. -/
  | run (command : List Bytes)
  /-- The driver itself tries to remove what stands at a path. -/
  | removal (path : Bytes)

/-- The files and tools after an event. -/
def Event.apply (executor : Executor σ) (world : FileTree × σ) : Event → FileTree × σ
  | .run command =>
    ((executor command world.1 world.2).files, (executor command world.1 world.2).tools)
  | .removal path => ((world.1.remove path).toOption.getD world.1, world.2)

/-- The files and tools after events, one after the other. -/
def replay (executor : Executor σ) (events : List Event) (world : FileTree × σ) : FileTree × σ :=
  events.foldl (Event.apply executor) world

/-- The events of a phase. -/
def phaseEvents (o : Options) (t : Toolchain) (tool : Tool) : List Event :=
  .run (expectedCommand o t tool) ::
    if o.saveTemps then []
    else (consumed? tool).toList.map fun artifact => .removal (o.path artifact)

theorem replay_append (executor : Executor σ) (events more : List Event) (world : FileTree × σ) :
    replay executor (events ++ more) world = replay executor more (replay executor events world) :=
  List.foldl_append

theorem runPhase_replay (o : Options) (t : Toolchain) (executor : Executor σ) (tool : Tool)
    (files : FileTree) (state : σ) :
    ((runPhase o t executor tool files state).files,
        (runPhase o t executor tool files state).tools) =
      replay executor (phaseEvents o t tool) (files, state) := by
  obtain ⟨-, htools, hfiles⟩ := runPhase_spec o t executor tool files state
  rw [htools, hfiles, phaseEvents]
  cases consumed? tool with
  | none => simp [replay, Event.apply]
  | some artifact =>
      cases o.saveTemps with
      | true => simp [replay, Event.apply]
      | false => simp [replay, Event.apply]

theorem runPhases_replay (o : Options) (t : Toolchain) (executor : Executor σ) (tools : List Tool)
    (files : FileTree) (state : σ) :
    ((runPhases o t executor tools files state).files,
        (runPhases o t executor tools files state).tools) =
      replay executor (tools.flatMap (phaseEvents o t)) (files, state) := by
  induction tools generalizing files state with
  | nil => rfl
  | cons tool rest ih =>
      rw [List.flatMap_cons, replay_append, ← runPhase_replay, ← ih]
      rfl

end Compilation

namespace Pipeline

open Compilation

variable {σ : Type}

/-- A pipeline does what the phases do that it comes to. -/
theorem exists_runPlan_replay (o : Options) (t : Toolchain) (executor : Executor σ)
    (stages : List (Stage × Tool)) (files : FileTree) (state : σ) :
    ∃ tools, tools <+: stages.map Prod.snd ∧
      ((runPlan (runPhase o t executor) stages files state).files,
          (runPlan (runPhase o t executor) stages files state).tools) =
        replay executor (tools.flatMap (phaseEvents o t)) (files, state) := by
  induction stages generalizing files state with
  | nil => exact ⟨[], List.prefix_refl _, rfl⟩
  | cons first rest ih =>
      obtain ⟨s, tool⟩ := first
      have hfiles : (stage (runPhase o t executor) s tool files state).files =
          (runPhase o t executor tool files state).files := by
        simp [stage, enter, judge_files]
      have htools : (stage (runPhase o t executor) s tool files state).tools =
          (runPhase o t executor tool files state).tools := by
        simp [stage, enter, judge_tools]
      have hphase := runPhase_replay o t executor tool files state
      rw [← hfiles, ← htools] at hphase
      simp only [runPlan, Action.bind_files, Action.bind_tools]
      cases (stage (runPhase o t executor) s tool files state).value with
      | error failure =>
          refine ⟨[tool], by simp, ?_⟩
          simpa using hphase
      | ok =>
          obtain ⟨tools, hprefix, hrest⟩ :=
            ih (stage (runPhase o t executor) s tool files state).files
              (stage (runPhase o t executor) s tool files state).tools
          refine ⟨tool :: tools, by simpa using hprefix, ?_⟩
          rw [List.flatMap_cons, replay_append, ← hphase]
          exact hrest

theorem exists_compile_replay (o : Options) (t : Toolchain) (executor : Executor σ)
    (files : FileTree) (state : σ) :
    ∃ tools, tools <+: Tool.all ∧
      ((compile o t executor files state).files, (compile o t executor files state).tools) =
        replay executor (tools.flatMap (phaseEvents o t)) (files, state) := by
  obtain ⟨tools, hprefix, hreplay⟩ :=
    exists_runPlan_replay o t executor (plan o.stopAfterCompile) files state
  have hplan : (plan o.stopAfterCompile).map Prod.snd <+: Tool.all := by
    cases o.stopAfterCompile <;> decide
  refine ⟨tools, hprefix.trans hplan, ?_⟩
  rw [← hreplay, compile, drive_eq_runPlan]
  simp only [Action.bind_files, Action.bind_tools]
  cases (runPlan (runPhase o t executor) (plan o.stopAfterCompile) files state).value with
  | error failure => rfl
  | ok => rfl

end Pipeline

namespace Compilation

open FileTree (RemovalSpares)

variable {σ : Type}

/-!
## The names of a source and of its artifacts
-/

/-- The artifacts that are there for the next tool only. -/
def temporary (o : Options) : List Bytes := [o.path .preprocessed, o.path .assembly]

/-- The source, and what is made of it in the end. -/
def lasting (o : Options) : List Bytes := [o.source, o.path .binary, o.path .listing]

variable {o : Options}

theorem forall_mem_names {P : Bytes → Prop} :
    (∀ p ∈ temporary o ++ lasting o, P p) ↔ P o.source ∧ ∀ artifact, P (o.path artifact) := by
  simp only [temporary, lasting, List.cons_append, List.nil_append, List.forall_mem_cons,
    List.not_mem_nil, false_imp_iff, implies_true, and_true]
  constructor
  · rintro ⟨hpreprocessed, hassembly, hsource, hbinary, hlisting⟩
    refine ⟨hsource, fun artifact => ?_⟩
    cases artifact with
    | preprocessed => exact hpreprocessed
    | assembly => exact hassembly
    | binary => exact hbinary
    | listing => exact hlisting
  · rintro ⟨hsource, hartifacts⟩
    exact ⟨hartifacts _, hartifacts _, hsource, hartifacts _, hartifacts _⟩

theorem isName_final_of_mem (hsource : IsSourceName o.source) :
    ∀ p ∈ temporary o ++ lasting o, Path.IsName (Path.final p) :=
  forall_mem_names.2 ⟨hsource.isName_final, Artifact.isName_final_path o.source⟩

theorem parentText_of_mem (hsource : IsSourceName o.source) :
    ∀ p ∈ temporary o ++ lasting o, Path.parentText p = Path.parentText o.source :=
  forall_mem_names.2 ⟨rfl, Artifact.parentText_path hsource.endsInElement⟩

/-- Each name ends in a byte of its own. -/
theorem nodup_final (hsource : IsSourceName o.source) :
    ((temporary o ++ lasting o).map Path.final).Nodup := by
  have hlast : ((temporary o ++ lasting o).map Path.final).map List.getLast? =
      (temporary o ++ lasting o).map List.getLast? := by
    rw [List.map_map]
    refine List.map_congr_left fun p hp => ?_
    exact Path.getLast?_final (isName_final_of_mem hsource p hp).ne_nil
  apply List.Nodup.of_map List.getLast?
  rw [hlast]
  simp only [temporary, lasting, List.cons_append, List.nil_append, List.map_cons, List.map_nil,
    Options.path, Artifact.getLast?_path]
  rcases hsource.getLast? with hletter | hletter
  · rw [hletter]
    decide
  · rw [hletter]
    decide

/-!
## What is spared
-/

/-- The driver removes nothing but temporary artifacts. -/
theorem mem_temporary_of_removal {t : Toolchain} {tools : List Tool} {path : Bytes}
    (h : Event.removal path ∈ tools.flatMap (phaseEvents o t)) : path ∈ temporary o := by
  obtain ⟨tool, -, hmem⟩ := List.mem_flatMap.1 h
  cases hkeep : o.saveTemps with
  | true => simp [phaseEvents, hkeep] at hmem
  | false =>
      cases tool with
      | preprocessor => simp [phaseEvents, hkeep, consumed?] at hmem
      | compiler =>
          obtain rfl : path = o.path .preprocessed := by
            simpa [phaseEvents, hkeep, consumed?] using hmem
          simp [temporary]
      | assembler =>
          obtain rfl : path = o.path .assembly := by
            simpa [phaseEvents, hkeep, consumed?] using hmem
          simp [temporary]

theorem removalSpares_lasting (hsource : IsSourceName o.source) {removed kept : Bytes}
    (hremoved : removed ∈ temporary o) (hkept : kept ∈ lasting o) :
    removed ≠ kept ∧ RemovalSpares removed kept := by
  have hne : Path.final removed ≠ Path.final kept := by
    have hnodup := nodup_final hsource
    rw [List.map_append] at hnodup
    have hdisjoint := List.disjoint_of_nodup_append hnodup
    intro heq
    exact hdisjoint (List.mem_map_of_mem hremoved) (heq ▸ List.mem_map_of_mem hkept)
  have hname := isName_final_of_mem hsource
  refine ⟨fun heq => hne (congrArg Path.final heq), ?_⟩
  exact FileTree.removalSpares_of_final_ne (hname removed (List.mem_append_left _ hremoved))
    (hname kept (List.mem_append_right _ hkept)) hne

/-- What no event touches is in the end what it was. -/
theorem lookup?_replay {executor : Executor σ} {events : List Event} {place : FileTree.Place}
    (h : ∀ event ∈ events, ∀ world : FileTree × σ,
      (event.apply executor world).1.lookup? place = world.1.lookup? place)
    (world : FileTree × σ) :
    (replay executor events world).1.lookup? place = world.1.lookup? place := by
  induction events generalizing world with
  | nil => rfl
  | cons event rest ih =>
      have hrest := ih (fun e he => h e (List.mem_cons_of_mem _ he)) (event.apply executor world)
      exact hrest.trans (h event List.mem_cons_self world)

/-- Events that lead from one state of the world to another, and in which some paths are safe from
the driver: it does not remove them, nor does it remove by another path what stands there.  So
what stands there is lost only if a tool that is run touches it. -/
structure Sparing (executor : Executor σ) (safe : List Bytes) (events : List Event)
    (before after : FileTree × σ) : Prop where
  replayed : after = replay executor events before
  removed : ∀ path, Event.removal path ∈ events → ∀ kept ∈ safe,
    path ≠ kept ∧ RemovalSpares path kept
  stays : ∀ kept ∈ safe, ∀ (tree : FileTree) (place : FileTree.Place) (entry : Entry),
    tree.find kept = .ok (place, entry) →
      (∀ command, Event.run command ∈ events → ∀ files state,
        (executor command files state).files.lookup? place = files.lookup? place) →
      after.1.lookup? place = before.1.lookup? place

theorem sparing_of_replay (hsource : IsSourceName o.source) {t : Toolchain}
    {executor : Executor σ} {tools : List Tool} {before after : FileTree × σ}
    (h : after = replay executor (tools.flatMap (phaseEvents o t)) before) :
    Sparing executor (lasting o) (tools.flatMap (phaseEvents o t)) before after := by
  have hremoved : ∀ path, Event.removal path ∈ tools.flatMap (phaseEvents o t) →
      ∀ kept ∈ lasting o, path ≠ kept ∧ RemovalSpares path kept :=
    fun path hpath kept hkept =>
      removalSpares_lasting hsource (mem_temporary_of_removal hpath) hkept
  refine ⟨h, hremoved, ?_⟩
  intro kept hkept tree place entry hfind hrun
  rw [h]
  apply lookup?_replay
  intro event hevent world
  cases event with
  | run command => exact hrun command hevent world.1 world.2
  | removal path => exact (hremoved path hevent kept hkept).2 world.1 tree place entry hfind

theorem source_of_validate {found : FileTree} {s : Driver.Settings} {args : List Bytes}
    (h : Driver.validate found s args = .ok o) : args = [o.source] ∧ IsSourceName o.source := by
  obtain ⟨source, rfl, hname, -, rfl⟩ := Driver.validate_eq_ok_iff.1 h
  exact ⟨rfl, hname⟩

/-- A source that is accepted is named like a C file.  Of every source that is named so, neither
the source nor the binary nor the listing is ever removed by the driver, in whatever order its
phases are run, and by whatever tools. -/
theorem driver_spares_source_and_results (o : Options) :
    (∀ (found : FileTree) (s : Driver.Settings) (args : List Bytes),
      Driver.validate found s args = .ok o → args = [o.source] ∧ IsSourceName o.source) ∧
    (IsSourceName o.source →
      (∀ p ∈ temporary o ++ lasting o, Path.parentText p = Path.parentText o.source ∧
        Path.final p ≠ [Path.dot] ∧ Path.final p ≠ Path.up) ∧
      ((temporary o ++ lasting o).map Path.final).Nodup ∧
      ∀ (t : Toolchain) (executor : Executor σ) (files : FileTree) (state : σ),
        (∀ tools, Sparing executor (lasting o) (tools.flatMap (phaseEvents o t)) (files, state)
          ((runPhases o t executor tools files state).files,
            (runPhases o t executor tools files state).tools)) ∧
        ∃ tools, tools <+: Tool.all ∧
          Sparing executor (lasting o) (tools.flatMap (phaseEvents o t)) (files, state)
            ((Pipeline.compile o t executor files state).files,
              (Pipeline.compile o t executor files state).tools)) := by
  refine ⟨fun found s args => source_of_validate, fun hsource => ⟨?_, nodup_final hsource, ?_⟩⟩
  · intro p hp
    have hname := isName_final_of_mem hsource p hp
    exact ⟨parentText_of_mem hsource p hp, hname.ne_dot, hname.ne_up⟩
  · intro t executor files state
    constructor
    · intro tools
      exact sparing_of_replay hsource (runPhases_replay o t executor tools files state)
    · obtain ⟨tools, hprefix, hreplay⟩ :=
        Pipeline.exists_compile_replay o t executor files state
      exact ⟨tools, hprefix, sparing_of_replay hsource hreplay⟩

/-- A source whose name is nothing but an extension, in a directory that looks like a source and
is not the working directory, is still there when tools that do nothing have compiled it. -/
theorem driver_spares_source_and_results_hidden :
    let content := text "int x;"
    let files := FileTree.ofList [(text "/d.c/.C", content), (text "/d.c/.C.i", [])] [text "home"]
    let o : Options := ⟨text "/d.c/.C", false, false, false, false, false, .default⟩
    let idle : Executor Unit := fun _ => pure (.ok ⟨.exited 0, [], []⟩)
    Driver.validate files (.standard ⟨[], []⟩) [text "/d.c/.C"] = .ok o ∧
      files.read (o.path .preprocessed) = .ok [] ∧
      ∀ t, (Pipeline.compile o t idle files ()).files.lookup? [text "d.c", text ".C"] =
        some (.file content) := by
  intro content files o idle
  have haccepted : Driver.validate files (.standard ⟨[], []⟩) [text "/d.c/.C"] = .ok o := by decide
  have hfind : files.find o.source = .ok ([text "d.c", text ".C"], .file content) := by decide
  refine ⟨haccepted, by decide, fun t => ?_⟩
  obtain ⟨hsource, hspares⟩ := driver_spares_source_and_results (σ := Unit) o
  obtain ⟨-, -, hruns⟩ := hspares (hsource _ _ _ haccepted).2
  obtain ⟨tools, -, hsparing⟩ := (hruns t idle files ()).2
  have hstays := hsparing.stays o.source List.mem_cons_self files _ _ hfind
    (fun _ _ _ _ => rfl)
  rw [hstays]
  decide

end Compilation
end CrossCompiler
