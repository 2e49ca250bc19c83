import KeyRemap.Proofs.Slots
import KeyRemap.Proofs.Writing

/-!
# Files of a run

A run reads its plan, its symbols and its sources and compiles them before it writes the first file.
So it writes nothing if any of that fails, and afterwards only the outputs of its units and the
registry can differ from what they were. Nothing keeps two of these files apart, though: where two
paths of a plan lead to one place, the file that is written last is the one that stays.

* `FileTree.Reads`: actions that leave the tree as it is.
* `Settings.Halts`, `Settings.Prepares`: why a run writes nothing, and what it knows when it writes.
* `Settings.run_case`: a run halts with the tree as it was, or writes the files of its plan.
* `Settings.tree_of_run`: what a run can change.
* `Settings.outputs_of_run`: what the files of a plan hold after a run.
* `Settings.not_holds_of_run`: an output can be lost to a later one at the same place.
-/

namespace KeyRemap

/-! ## Reading -/

namespace FileTree

/-- The action leaves the tree as it is. -/
def Reads {A : Type} (action : StateM FileTree A) : Prop :=
  ∀ tree, (action tree).2 = tree

namespace Reads

theorem pure {A : Type} (a : A) : Reads (Pure.pure a) := by
  intro tree
  rfl

theorem bind {A B : Type} {action : StateM FileTree A} {next : A → StateM FileTree B}
    (h : Reads action) (hNext : ∀ a, Reads (next a)) : Reads (action >>= next) := by
  intro tree
  rw [StateM.bind_apply, hNext, h]

theorem read (path : Path) : Reads (access.read path) := by
  intro tree
  rfl

theorem loadPlan (path : Path) : Reads (access.loadPlan path) := by
  refine (read path).bind ?_
  intro result
  cases result <;> exact .pure _

theorem loadSymbols (path : Path) : Reads (access.loadSymbols path) := by
  refine (read path).bind ?_
  intro result
  cases result <;> exact .pure _

theorem findPlan (defaultPlan : Option Path) (settings : Settings) :
    Reads (access.findPlan defaultPlan settings) := by
  unfold FileAccess.findPlan
  split
  · split
    · exact .pure _
    · refine (loadPlan _).bind ?_
      intro result
      cases result <;> exact .pure _
  · exact .pure _

theorem readSources (paths : List Path) : Reads (access.readSources paths) := by
  induction paths with
  | nil => exact .pure _
  | cons path paths ih =>
    refine (read path).bind ?_
    intro result
    cases result with
    | error cause => exact .pure _
    | ok text =>
      refine ih.bind ?_
      intro rest
      cases rest <;> exact .pure _

theorem readUnits (units : List UnitPlan) : Reads (access.readUnits units) := by
  induction units with
  | nil => exact .pure _
  | cons unit units ih =>
    refine (readSources unit.sources).bind ?_
    intro result
    cases result with
    | error failure => exact .pure _
    | ok sources =>
      refine ih.bind ?_
      intro rest
      cases rest <;> exact .pure _

end Reads

/-- The plan that a command line finds in a tree. -/
def planOf (tree : FileTree) (defaultPlan : Option Path) (settings : Settings) :
    Except Failure Plan :=
  (access.findPlan defaultPlan settings tree).1

/-- The symbols in the file at a path. -/
def symbolsAt (tree : FileTree) (path : Path) : Except SymbolError SymbolMap :=
  (access.loadSymbols path tree).1

/-- The sources of units in a tree. -/
def inputsOf (tree : FileTree) (units : List UnitPlan) : Except Failure (List UnitInput) :=
  (access.readUnits units tree).1

theorem findPlan_access (tree : FileTree) (defaultPlan : Option Path) (settings : Settings) :
    access.findPlan defaultPlan settings tree = (tree.planOf defaultPlan settings, tree) :=
  Prod.ext rfl (Reads.findPlan defaultPlan settings tree)

theorem loadSymbols_access (tree : FileTree) (path : Path) :
    access.loadSymbols path tree = (tree.symbolsAt path, tree) :=
  Prod.ext rfl (Reads.loadSymbols path tree)

theorem readUnits_access (tree : FileTree) (units : List UnitPlan) :
    access.readUnits units tree = (tree.inputsOf units, tree) :=
  Prod.ext rfl (Reads.readUnits units tree)

/-- Sources that have been read are the texts at their paths, in order; else one cannot be read. -/
theorem readSources_spec (tree : FileTree) (paths : List Path) :
    match (access.readSources paths tree).1 with
    | .error _ => ∃ path ∈ paths, ∃ cause, tree.read path = .error cause
    | .ok sources =>
      List.Forall₂ (fun path source => source.label = path.text ∧ tree.read path = .ok source.text)
        paths sources := by
  induction paths with
  | nil => exact .nil
  | cons path paths ih =>
    have hRead : access.read path tree = (tree.read path, tree) := rfl
    simp only [FileAccess.readSources, StateM.bind_apply, hRead]
    cases hText : tree.read path with
    | error cause => exact ⟨path, List.mem_cons_self, cause, hText⟩
    | ok text =>
      simp only [StateM.bind_apply]
      cases hRest : (access.readSources paths tree).1 with
      | error failure =>
        rw [hRest] at ih
        obtain ⟨later, hLater, hCause⟩ := ih
        exact ⟨later, List.mem_cons_of_mem _ hLater, hCause⟩
      | ok rest =>
        rw [hRest] at ih
        exact .cons ⟨rfl, hText⟩ ih

/-- The inputs of units have their names and the texts of their sources; else one of these cannot be
read. -/
theorem inputsOf_spec (tree : FileTree) (units : List UnitPlan) :
    match tree.inputsOf units with
    | .error _ => ∃ unit ∈ units, ∃ path ∈ unit.sources, ∃ cause, tree.read path = .error cause
    | .ok inputs =>
      List.Forall₂
        (fun unit input => input.name = unit.name ∧
          List.Forall₂
            (fun path source => source.label = path.text ∧ tree.read path = .ok source.text)
            unit.sources input.sources)
        units inputs := by
  unfold inputsOf
  induction units with
  | nil => exact .nil
  | cons unit units ih =>
    have hUnit := tree.readSources_spec unit.sources
    simp only [FileAccess.readUnits, StateM.bind_apply]
    rw [Reads.readSources unit.sources tree]
    cases hSources : (access.readSources unit.sources tree).1 with
    | error failure =>
      rw [hSources] at hUnit
      exact ⟨unit, List.mem_cons_self, hUnit⟩
    | ok sources =>
      rw [hSources] at hUnit
      simp only [StateM.bind_apply]
      cases hRest : (access.readUnits units tree).1 with
      | error failure =>
        rw [hRest] at ih
        obtain ⟨later, hLater, hCause⟩ := ih
        exact ⟨later, List.mem_cons_of_mem _ hLater, hCause⟩
      | ok rest =>
        rw [hRest] at ih
        exact .cons ⟨rfl, hUnit⟩ ih

end FileTree

/-! ## How a run ends -/

namespace Settings

/-- A reason for which a run writes nothing. -/
inductive Halts (settings : Settings) (defaultPlan : Option Path) (tree : FileTree) : Prop
  | checksOnly (hCheck : settings.checkConfig = true)
  | noPlan {failure : Failure} (hPlan : tree.planOf defaultPlan settings = .error failure)
  | noSymbols {plan : Plan} {cause : SymbolError}
      (hPlan : tree.planOf defaultPlan settings = .ok plan)
      (hSymbols : tree.symbolsAt plan.symbols = .error cause)
  | unreadable {plan : Plan} {unit : UnitPlan} {path : Path} {cause : OsError}
      (hPlan : tree.planOf defaultPlan settings = .ok plan) (hUnit : unit ∈ plan.units)
      (hPath : path ∈ unit.sources) (hRead : tree.read path = .error cause)
  | refused {plan : Plan} {symbols : SymbolMap} {inputs : List UnitInput} {cause : CompileError}
      (hPlan : tree.planOf defaultPlan settings = .ok plan)
      (hSymbols : tree.symbolsAt plan.symbols = .ok symbols)
      (hInputs : tree.inputsOf plan.units = .ok inputs)
      (hCompile : (Compiler.compile { resolver := symbols.resolver } inputs).1 = .error cause)

/-- A run has a plan and what its units compile to, and goes on to write. -/
structure Prepares (settings : Settings) (defaultPlan : Option Path) (tree : FileTree)
    (plan : Plan) (compilation : Compilation) : Prop where
  writes : settings.checkConfig = false
  planned : tree.planOf defaultPlan settings = .ok plan
  compiles : ∃ symbols inputs, tree.symbolsAt plan.symbols = .ok symbols ∧
    tree.inputsOf plan.units = .ok inputs ∧
    (Compiler.compile { resolver := symbols.resolver } inputs).1 = .ok compilation

/-- The plan of a run and what its units compile to, if it gets as far as that. -/
def compiled? (settings : Settings) (defaultPlan : Option Path) (tree : FileTree) :
    Option (Plan × Compilation) := do
  let plan ← (tree.planOf defaultPlan settings).toOption
  let symbols ← (tree.symbolsAt plan.symbols).toOption
  let inputs ← (tree.inputsOf plan.units).toOption
  let compilation ← (Compiler.compile { resolver := symbols.resolver } inputs).1.toOption
  return (plan, compilation)

theorem Prepares.compiled?_eq {settings : Settings} {defaultPlan : Option Path} {tree : FileTree}
    {plan : Plan} {compilation : Compilation}
    (h : settings.Prepares defaultPlan tree plan compilation) :
    settings.compiled? defaultPlan tree = some (plan, compilation) := by
  obtain ⟨_, hPlanned, symbols, inputs, hSymbols, hInputs, hCompiles⟩ := h
  simp [compiled?, hPlanned, hSymbols, hInputs, hCompiles, Except.toOption]

/-- The two ways in which a run can end: it halts and leaves the tree as it is, which is a failure
unless it was only to check, or it writes the files of its plan, up to the first that fails. -/
inductive RunCase (settings : Settings) (defaultPlan : Option Path) (tree : FileTree) :
    RunReport × FileTree → Prop
  | halted {report : RunReport} (hHalts : settings.Halts defaultPlan tree)
      (hFails : settings.checkConfig = false → report.failure ≠ none) :
      RunCase settings defaultPlan tree (report, tree)
  | wrote {plan : Plan} {compilation : Compilation} {events : List Event} {report : RunReport}
      {after : FileTree} (hReady : settings.Prepares defaultPlan tree plan compilation)
      (hJobs : FileTree.access.writeJobs (plan.jobs compilation) tree =
        ((events, report.failure), after)) :
      RunCase settings defaultPlan tree (report, after)

theorem run_case (settings : Settings) (defaultPlan : Option Path) (tree : FileTree) :
    RunCase settings defaultPlan tree (settings.run FileTree.access defaultPlan tree) := by
  unfold run
  rw [StateM.bind_apply, FileTree.findPlan_access]
  cases hPlan : tree.planOf defaultPlan settings with
  | error failure => exact .halted (.noPlan hPlan) (fun _ => nofun)
  | ok plan =>
    dsimp only
    rw [StateM.bind_apply, FileTree.loadSymbols_access]
    cases hSymbols : tree.symbolsAt plan.symbols with
    | error cause => exact .halted (.noSymbols hPlan hSymbols) (fun _ => nofun)
    | ok symbols =>
      dsimp only
      cases hCheck : settings.checkConfig with
      | true =>
        refine .halted (.checksOnly hCheck) ?_
        intro hWrites
        cases hCheck.symm.trans hWrites
      | false =>
        have hUnits := tree.inputsOf_spec plan.units
        rw [if_neg (by simp), StateM.bind_apply, FileTree.readUnits_access]
        cases hInputs : tree.inputsOf plan.units with
        | error failure =>
          rw [hInputs] at hUnits
          obtain ⟨unit, hUnit, path, hPath, cause, hRead⟩ := hUnits
          exact .halted (.unreadable hPlan hUnit hPath hRead) (fun _ => nofun)
        | ok inputs =>
          dsimp only
          rcases hCompile : Compiler.compile { resolver := symbols.resolver } inputs with
            ⟨cause | compilation, events⟩
          · exact .halted (.refused hPlan hSymbols hInputs (congrArg Prod.fst hCompile))
              (fun _ => nofun)
          · dsimp only
            rw [StateM.bind_apply]
            exact .wrote
              ⟨hCheck, hPlan, symbols, inputs, hSymbols, hInputs, congrArg Prod.fst hCompile⟩ rfl

theorem exists_of_forall₂ {A B : Type} {R : A → B → Prop} {as : List A} {bs : List B}
    (h : List.Forall₂ R as bs) {a : A} (ha : a ∈ as) : ∃ b, R a b := by
  induction h with
  | nil => cases ha
  | cons hHead _ ih =>
    rcases List.mem_cons.mp ha with rfl | ha
    · exact ⟨_, hHead⟩
    · exact ih ha

/-- A run that goes on to write has no reason to write nothing. -/
theorem Prepares.not_halts {settings : Settings} {defaultPlan : Option Path} {tree : FileTree}
    {plan : Plan} {compilation : Compilation}
    (h : settings.Prepares defaultPlan tree plan compilation) :
    ¬ settings.Halts defaultPlan tree := by
  obtain ⟨hWrites, hPlanned, symbols, inputs, hSymbols, hInputs, hCompiles⟩ := h
  intro hHalts
  cases hHalts with
  | checksOnly hCheck => cases hCheck.symm.trans hWrites
  | noPlan hPlan => cases hPlan.symm.trans hPlanned
  | noSymbols hPlan hNone =>
    cases hPlan.symm.trans hPlanned
    cases hNone.symm.trans hSymbols
  | @unreadable _ unit path _ hPlan hUnit hPath hRead =>
    cases hPlan.symm.trans hPlanned
    have hUnits := tree.inputsOf_spec plan.units
    rw [hInputs] at hUnits
    obtain ⟨input, _, hSources⟩ := exists_of_forall₂ hUnits hUnit
    obtain ⟨source, _, hText⟩ := exists_of_forall₂ hSources hPath
    cases hRead.symm.trans hText
  | refused hPlan hFound hRead hCompile =>
    cases hPlan.symm.trans hPlanned
    cases hFound.symm.trans hSymbols
    cases hRead.symm.trans hInputs
    cases hCompile.symm.trans hCompiles

/-! ## What a run changes -/

/-- The paths to which a run writes. -/
theorem mem_paths_jobs {plan : Plan} {compilation : Compilation} {job : OutputJob}
    (h : job ∈ plan.jobs compilation) :
    (∃ unit ∈ plan.units, unit.output = job.path) ∨ plan.registry = some job.path := by
  rcases List.mem_append.mp h with h | h
  · obtain ⟨⟨unit, compiled⟩, hPair, rfl⟩ := List.mem_map.mp h
    exact .inl ⟨unit, (List.of_mem_zip hPair).1, rfl⟩
  · obtain ⟨path, hPath, rfl⟩ := List.mem_map.mp h
    exact .inr (Option.mem_toList.mp hPath)

/-- **Nothing but the outputs is written, and these only when all has compiled.** If no plan is
found, the symbols cannot be loaded, a source cannot be read, a unit does not compile or the files
are only to be checked, a run leaves the file tree exactly as it was. In any case all directories
stay, and a file whose content differs afterwards, also where it is new or where a later write has
failed, is the output of a unit of the plan or its registry. -/
theorem tree_of_run (settings : Settings) (defaultPlan : Option Path) (tree : FileTree) :
    let after := (settings.run FileTree.access defaultPlan tree).2
    (settings.Halts defaultPlan tree → after = tree) ∧
    (∀ place, tree.node? place = some .directory → after.node? place = some .directory) ∧
    ∀ place, after.content? place ≠ tree.content? place →
      ∃ plan path, tree.planOf defaultPlan settings = .ok plan ∧
        ((∃ unit ∈ plan.units, unit.output = path) ∨ plan.registry = some path) ∧
        after.place path = .ok place := by
  have hCase := settings.run_case defaultPlan tree
  generalize settings.run FileTree.access defaultPlan tree = result at hCase
  cases hCase with
  | halted hHalts => exact ⟨fun _ => rfl, fun _ h => h, fun place h => absurd rfl h⟩
  | wrote hReady hJobs =>
    obtain ⟨done, rest, hSplit, _, hDone⟩ := FileTree.exists_written hJobs
    refine ⟨fun hHalts => absurd hHalts hReady.not_halts, fun _ => hDone.directory, ?_⟩
    intro place hChanged
    rw [hDone.content place] at hChanged
    cases hLast : (FileTree.jobsAt _ done place).getLast? with
    | none =>
      rw [hLast] at hChanged
      exact absurd rfl hChanged
    | some job =>
      obtain ⟨hJob, hPlace⟩ := FileTree.mem_jobsAt.mp (List.mem_of_getLast? hLast)
      have hMem := hSplit ▸ List.mem_append_left rest hJob
      exact ⟨_, job.path, hReady.planned, mem_paths_jobs hMem, hPlace⟩

/-- A registry path that is a directory: the output before it is written all the same, and nothing
else changes. With a source that is missing, nothing does. -/
theorem tree_of_run_failed_registry :
    ∃ tree settings after,
      tree =
        ({ nodes :=
            [(["s"], .file ByteArray.empty), (["x"], .file ByteArray.empty), (["d"], .directory)] } :
          FileTree) ∧
      settings =
        ({ symbols := some ⟨"s"⟩, output := some ⟨"o"⟩, registry := some ⟨"d"⟩,
            inputs := [⟨"x"⟩] } : Settings) ∧
      after = (settings.run FileTree.access none tree).2 ∧
      (settings.run FileTree.access none tree).1.failure =
        some (.writing ⟨"d"⟩ .isADirectory) ∧
      (after.content? ["o"]).isSome = true ∧ (tree.content? ["o"]).isSome = false ∧
      (∀ place, place ≠ ["o"] → place ≠ ["d"] → after.content? place = tree.content? place) ∧
      (({ settings with inputs := [⟨"x"⟩, ⟨"y"⟩] } : Settings).run FileTree.access none tree).2 =
        tree := by
  obtain ⟨tree, hTree⟩ : ∃ tree : FileTree, tree =
      { nodes :=
          [(["s"], .file ByteArray.empty), (["x"], .file ByteArray.empty), (["d"], .directory)] } :=
    ⟨_, rfl⟩
  obtain ⟨settings, hSettings⟩ : ∃ settings : Settings, settings =
      { symbols := some ⟨"s"⟩, output := some ⟨"o"⟩, registry := some ⟨"d"⟩, inputs := [⟨"x"⟩] } :=
    ⟨_, rfl⟩
  obtain ⟨hFailure, hWritten, hNew, hOutput, hRegistry⟩ :
      (settings.run FileTree.access none tree).1.failure = some (.writing ⟨"d"⟩ .isADirectory) ∧
      ((settings.run FileTree.access none tree).2.content? ["o"]).isSome = true ∧
      (tree.content? ["o"]).isSome = false ∧
      ((settings.run FileTree.access none tree).2.place ⟨"o"⟩).toOption = some ["o"] ∧
      ((settings.run FileTree.access none tree).2.place ⟨"d"⟩).toOption = some ["d"] := by
    subst hTree hSettings
    decide +kernel
  have hPlanned : ∀ inputs, inputs ≠ [] →
      tree.planOf none
          { symbols := some ⟨"s"⟩, output := some ⟨"o"⟩, registry := some ⟨"d"⟩, inputs } =
        .ok
          { symbols := ⟨"s"⟩
            registry := some ⟨"d"⟩
            units := [{ name := "o", sources := inputs, output := ⟨"o"⟩ }] } := by
    intro inputs hInputs
    cases inputs with
    | nil => exact absurd rfl hInputs
    | cons input inputs => rfl
  subst hSettings
  refine ⟨tree, _, _, hTree, rfl, rfl, hFailure, hWritten, hNew, ?_, ?_⟩
  · intro place hNotOutput hNotRegistry
    by_contra hChanged
    obtain ⟨plan, path, hPlan, hPath, hPlace⟩ := (tree_of_run _ none tree).2.2 place hChanged
    cases (hPlanned [⟨"x"⟩] (by simp)).symm.trans hPlan
    rcases hPath with ⟨unit, hUnit, rfl⟩ | hPath
    · cases List.mem_singleton.mp hUnit
      rw [hPlace] at hOutput
      exact hNotOutput (Option.some.inj hOutput)
    · cases hPath
      rw [hPlace] at hRegistry
      exact hNotRegistry (Option.some.inj hRegistry)
  · have hMissing : tree.read ⟨"y"⟩ = .error .notFound := by
      subst hTree
      rfl
    exact (tree_of_run _ none tree).1
      (.unreadable (hPlanned _ (by simp)) List.mem_cons_self (by simp) hMissing)

/-! ## What the files hold -/

theorem name_of_compileUnit {compiler : Compiler} {input : UnitInput} {bench after : Workbench}
    {unit : CompiledUnit} (h : compiler.compileUnit input bench = .ok unit after) :
    unit.name = input.name := by
  unfold Compiler.compileUnit at h
  split at h
  · cases h
  · split at h
    · cases h
    · cases h
      rfl

theorem names_of_compileUnits {compiler : Compiler} {inputs : List UnitInput}
    {bench after : Workbench} {units : List CompiledUnit}
    (h : compiler.compileUnits inputs bench = .ok units after) :
    units.map CompiledUnit.name = inputs.map UnitInput.name := by
  induction inputs generalizing bench units with
  | nil =>
    cases h
    rfl
  | cons input inputs ih =>
    obtain ⟨unit, middle, rest, rfl, hUnit, hRest⟩ := Compiler.exists_of_compileUnits_cons h
    rw [List.map_cons, List.map_cons, name_of_compileUnit hUnit, ih hRest]

/-- The units that a run compiles are those of its plan, in order. -/
theorem Prepares.names {settings : Settings} {defaultPlan : Option Path} {tree : FileTree}
    {plan : Plan} {compilation : Compilation}
    (h : settings.Prepares defaultPlan tree plan compilation) :
    compilation.units.map CompiledUnit.name = plan.units.map UnitPlan.name := by
  obtain ⟨symbols, inputs, _, hInputs, hCompiles⟩ := h.compiles
  have hUnits := tree.inputsOf_spec plan.units
  rw [hInputs] at hUnits
  have hNames : inputs.map UnitInput.name = plan.units.map UnitPlan.name := by
    rw [eq_comm, ← List.forall₂_eq_eq_eq, List.forall₂_map_left_iff, List.forall₂_map_right_iff]
    exact hUnits.imp fun _ _ hUnit => hUnit.1.symm
  unfold Compiler.compile at hCompiles
  split at hCompiles
  · rename_i hRun
    cases hCompiles
    exact (names_of_compileUnits hRun).trans hNames
  · cases hCompiles

/-- A run that succeeds and was not only to check has done all its jobs. -/
theorem exists_of_run {settings : Settings} {defaultPlan : Option Path} {tree after : FileTree}
    {report : RunReport} (hWrites : settings.checkConfig = false)
    (hRun : settings.run FileTree.access defaultPlan tree = (report, after))
    (hOk : report.failure = none) :
    ∃ plan compilation, settings.Prepares defaultPlan tree plan compilation ∧
      tree.Written (plan.jobs compilation) after := by
  have hCase := settings.run_case defaultPlan tree
  rw [hRun] at hCase
  cases hCase with
  | halted _ hFails => exact absurd hOk (hFails hWrites)
  | @wrote plan compilation _ _ _ hReady hJobs =>
    obtain ⟨done, rest, hSplit, hAll, hDone⟩ := FileTree.exists_written hJobs
    rw [hAll hOk, List.append_nil] at hSplit
    exact ⟨plan, compilation, hReady, hSplit ▸ hDone⟩

end Settings

/-- The files of a plan hold what has been made for them: each output the code of its unit, and the
registry file the manifest. -/
def FileTree.Holds (tree : FileTree) (plan : Plan) (compilation : Compilation) : Prop :=
  List.Forall₂ (fun unit compiled => tree.read unit.output = .ok compiled.code)
    plan.units compilation.units ∧
  ∀ path, plan.registry = some path → tree.read path = .ok compilation.registry.manifest

theorem FileTree.holds_iff {tree : FileTree} {plan : Plan} {compilation : Compilation}
    (hLength : plan.units.length = compilation.units.length) :
    tree.Holds plan compilation ↔
      ∀ job ∈ plan.jobs compilation, tree.read job.path = .ok job.text := by
  rw [Holds, List.forall₂_iff_zip]
  simp only [Plan.jobs, List.forall_mem_append, List.forall_mem_map, Prod.forall,
    Option.mem_toList, hLength, true_and]

namespace Settings

/-- **The last of several files at one place stays.** After a run that succeeds, the registry file
holds the manifest, and the file at the path of a job, be it the output of a unit or the registry,
holds the text of the last job whose path leads to the same place. So all outputs hold the code of
their units exactly if no two jobs with different texts lead to one place. -/
theorem outputs_of_run {settings : Settings} {defaultPlan : Option Path} {tree after : FileTree}
    {report : RunReport} (hWrites : settings.checkConfig = false)
    (hRun : settings.run FileTree.access defaultPlan tree = (report, after))
    (hOk : report.failure = none) :
    ∃ plan compilation, settings.Prepares defaultPlan tree plan compilation ∧
      compilation.units.map CompiledUnit.name = plan.units.map UnitPlan.name ∧
      (∀ path, plan.registry = some path → after.read path = .ok compilation.registry.manifest) ∧
      (∀ job ∈ plan.jobs compilation, ∃ place last, after.place job.path = .ok place ∧
        (after.jobsAt (plan.jobs compilation) place).getLast? = some last ∧
        after.read job.path = .ok last.text) ∧
      (after.Holds plan compilation ↔
        ∀ job ∈ plan.jobs compilation, ∀ other ∈ plan.jobs compilation,
          after.place job.path = after.place other.path → job.text = other.text) := by
  obtain ⟨plan, compilation, hReady, hDone⟩ := exists_of_run hWrites hRun hOk
  have hNames := hReady.names
  have hLength : plan.units.length = compilation.units.length := by
    simpa using (congrArg List.length hNames).symm
  have hRegistry : ∀ path, plan.registry = some path →
      after.read path = .ok compilation.registry.manifest := by
    intro path hPath
    rw [Plan.jobs, hPath] at hDone
    exact hDone.read_last
  refine ⟨plan, compilation, hReady, hNames, hRegistry, fun job hJob => hDone.read hJob, ?_⟩
  rw [FileTree.holds_iff hLength]
  constructor
  · intro hHolds job hJob other hOther hPlace
    have hSame : after.read job.path = after.read other.path := by
      simp only [FileTree.read, hPlace]
    rw [hHolds job hJob, hHolds other hOther] at hSame
    exact Except.ok.inj hSame
  · -- The last job at the place of a job is at the same place, so it has the same text.
    intro hApart job hJob
    obtain ⟨place, last, hPlace, hLast, hRead⟩ := hDone.read hJob
    obtain ⟨hMem, hLastPlace⟩ := FileTree.mem_jobsAt.mp (List.mem_of_getLast? hLast)
    rw [hRead, hApart job hJob last hMem (hPlace.trans hLastPlace.symm)]

/-- An output and a registry that lie apart hold what was made for them. -/
theorem outputs_of_run_apart :
    ∃ tree settings report after plan compilation,
      tree =
        ({ nodes :=
            [(["s"], .file ByteArray.empty),
              (["x"], .file
                ("<identifier>notsave_passthrough</identifier>\n" ++
                  "<autogen>--ShowStatusMessage-- 1</autogen>").toUTF8)] } : FileTree) ∧
      settings =
        ({ symbols := some ⟨"s"⟩, output := some ⟨"d/o"⟩, registry := some ⟨"d/r"⟩,
            inputs := [⟨"x"⟩] } : Settings) ∧
      settings.run FileTree.access none tree = (report, after) ∧ report.failure = none ∧
      settings.Prepares none tree plan compilation ∧ compilation.units.length = 1 ∧
      after.Holds plan compilation := by
  obtain ⟨tree, hTree⟩ : ∃ tree : FileTree, tree =
      { nodes :=
          [(["s"], .file ByteArray.empty),
            (["x"], .file
              ("<identifier>notsave_passthrough</identifier>\n" ++
                "<autogen>--ShowStatusMessage-- 1</autogen>").toUTF8)] } :=
    ⟨_, rfl⟩
  obtain ⟨settings, hSettings⟩ : ∃ settings : Settings, settings =
      { symbols := some ⟨"s"⟩, output := some ⟨"d/o"⟩, registry := some ⟨"d/r"⟩,
        inputs := [⟨"x"⟩] } :=
    ⟨_, rfl⟩
  obtain ⟨hOk, hOutput, hRegistry⟩ :
      (settings.run FileTree.access none tree).1.failure = none ∧
      ((settings.run FileTree.access none tree).2.place ⟨"d/o"⟩).toOption = some ["d", "o"] ∧
      ((settings.run FileTree.access none tree).2.place ⟨"d/r"⟩).toOption = some ["d", "r"] := by
    subst hTree hSettings
    decide +kernel
  have hWrites : settings.checkConfig = false := by
    subst hSettings
    rfl
  have hPlanned : tree.planOf none settings =
      .ok
        { symbols := ⟨"s"⟩
          registry := some ⟨"d/r"⟩
          units := [{ name := "o", sources := [⟨"x"⟩], output := ⟨"d/o"⟩ }] } := by
    subst hSettings
    rfl
  rcases hRun : settings.run FileTree.access none tree with ⟨report, after⟩
  rw [hRun] at hOk hOutput hRegistry
  obtain ⟨plan, compilation, hReady, hNames, _, _, hHolds⟩ := outputs_of_run hWrites hRun hOk
  cases hPlanned.symm.trans hReady.planned
  have hOne : compilation.units.length = 1 := by simpa using congrArg List.length hNames
  refine ⟨tree, settings, report, after, _, compilation, hTree, hSettings, hRun, hOk, hReady, hOne,
    hHolds.mpr ?_⟩
  have hApart : after.place ⟨"d/o"⟩ ≠ after.place ⟨"d/r"⟩ := by
    intro hSame
    rw [hSame, hRegistry] at hOutput
    exact absurd hOutput (by decide)
  obtain ⟨unit, hUnit⟩ := List.length_eq_one_iff.mp hOne
  simp [Plan.jobs, hUnit, hApart, hApart.symm]

/-- A plan of two units that have one output, with a compilation that has different code for
them. -/
def sharesOutput : Plan × Compilation → Bool
  | (⟨_, _, [unit, other]⟩, ⟨[first, second], _⟩) =>
    unit.output == other.output && first.code != second.code
  | _ => false

/-- Two units of a plan may have one output: the code of the first is lost. -/
theorem not_holds_of_run :
    ¬ ∀ (settings : Settings) (defaultPlan : Option Path) (tree after : FileTree)
        (report : RunReport) (plan : Plan) (compilation : Compilation),
      settings.run FileTree.access defaultPlan tree = (report, after) → report.failure = none →
      settings.Prepares defaultPlan tree plan compilation → after.Holds plan compilation := by
  intro hAll
  obtain ⟨settings, tree, hWrites, hOk, hShared⟩ : ∃ (settings : Settings) (tree : FileTree),
      settings.checkConfig = false ∧
      (settings.run FileTree.access none tree).1.failure = none ∧
      (settings.compiled? none tree).any sharesOutput = true := by
    refine ⟨{ config := some ⟨"c"⟩ },
      { nodes :=
          [(["c"], .file
              ("symbols = \"s\"\n[[unit]]\nname = \"a\"\nsources = [\"x\"]\noutput = \"o\"\n" ++
                "[[unit]]\nname = \"b\"\nsources = [\"y\"]\noutput = \"o\"\n").toUTF8),
            (["s"], .file ByteArray.empty),
            (["x"], .file
              ("<identifier>notsave_passthrough</identifier>\n" ++
                "<autogen>--ShowStatusMessage-- 1</autogen>").toUTF8),
            (["y"], .file
              ("<identifier>notsave_passthrough</identifier>\n" ++
                "<autogen>--ShowStatusMessage-- 2</autogen>").toUTF8)] }, ?_⟩
    decide +kernel
  rcases hRun : settings.run FileTree.access none tree with ⟨report, after⟩
  rw [hRun] at hOk
  obtain ⟨plan, compilation, hReady, -⟩ := exists_of_run hWrites hRun hOk
  obtain ⟨hUnits, -⟩ := hAll settings none tree after report plan compilation hRun hOk hReady
  rw [hReady.compiled?_eq, Option.any_some, sharesOutput.eq_def] at hShared
  split at hShared
  · rename_i hMade
    cases hMade
    simp only [List.forall₂_cons, List.forall₂_nil_left_iff] at hUnits
    obtain ⟨hFirst, hSecond, -⟩ := hUnits
    simp only [Bool.and_eq_true, beq_iff_eq, bne_iff_ne] at hShared
    rw [hShared.1, hSecond] at hFirst
    exact hShared.2 (Except.ok.inj hFirst).symm
  · cases hShared

end Settings

end KeyRemap
