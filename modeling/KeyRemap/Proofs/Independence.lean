import KeyRemap.Proofs.Chords
import KeyRemap.Proofs.Failure

/-!
# Units by themselves

A run compiles its units one after the other on one workbench. All that a unit takes from those
before it is the number of suffixes in use: what it compiles to, what it registers and what it fails
with are those of the unit alone, if it starts at the number of chords before it.

* `Compiler.compileAlone`: a unit by itself, from a given suffix on.
* `Compiler.compileUnit_alone`: on any workbench a unit does what it does by itself.
* `Compiler.compile_eq_alone`: a run is made of its units by themselves.
-/

namespace KeyRemap

namespace Compiler

/-- A unit by itself: fresh slots, suffixes from a given number on and an empty registry. -/
def compileAlone (compiler : Compiler) (input : UnitInput) (suffixes : Nat) :
    Except CompileError (CompiledUnit × Registry) :=
  match compiler.compileUnit input { numbering := .startingAt suffixes } with
  | .ok unit after => .ok (unit, after.registry)
  | .error cause _ => .error cause

/-- Every unit by itself, each from the suffix that the chords of the units before it leave when the
first one starts at a given number. -/
def aloneResults (compiler : Compiler) (suffixes : Nat) (inputs : List UnitInput) :
    List (Except CompileError (CompiledUnit × Registry)) :=
  inputs.mapIdx fun k input =>
    compiler.compileAlone input
      (suffixes + ((inputs.take k).flatMap (UnitInput.chords compiler.guards)).length)

theorem aloneResults_cons (compiler : Compiler) (suffixes : Nat) (input : UnitInput)
    (inputs : List UnitInput) :
    compiler.aloneResults suffixes (input :: inputs) =
      compiler.compileAlone input suffixes ::
        compiler.aloneResults (suffixes + (input.chords compiler.guards).length) inputs := by
  simp [aloneResults, List.mapIdx_cons, Nat.add_assoc]

/-- On any workbench with fresh slots a unit does what it does by itself: it fails for the same
reason, or gives the same unit, puts the same entries behind those that are there and takes one
suffix for each of its chords. -/
theorem compileUnit_alone (compiler : Compiler) (input : UnitInput) {bench : Workbench}
    {suffixes : Nat} (hBench : bench.numbering = .startingAt suffixes) :
    match compiler.compileAlone input suffixes with
    | .error cause => ∃ after, compiler.compileUnit input bench = .error cause after
    | .ok (unit, registry) => ∃ after,
      compiler.compileUnit input bench = .ok unit after ∧
      after.registry.entries = bench.registry.entries ++ registry.entries ∧
      after.numbering.suffixes = suffixes + (input.chords compiler.guards).length := by
  unfold compileAlone compileUnit
  rw [hBench]
  cases hRead : compiler.readSources input.sources { numbering := .startingAt suffixes } with
  | error cause reading => exact ⟨_, rfl⟩
  | ok _ reading =>
    -- what can be written out does not depend on the registry
    obtain ⟨_, _, hShared⟩ := compiler.emitRules_eq reading.rules { registry := bench.registry }
    obtain ⟨_, _, hAlone⟩ := compiler.emitRules_eq reading.rules { registry := {} }
    simp only [hShared, hAlone]
    rcases compiler.writeOut reading.rules with ⟨items, _ | cause⟩
    · refine ⟨_, rfl, ?_, (chordTables_readSources hRead).2⟩
      simp [Emission.extend]
    · exact ⟨_, rfl⟩

/-- The units of a run are those by themselves up to the first that fails. The induction is on the
units; the suffixes in use are what one unit hands to the next. -/
theorem compileUnits_alone (compiler : Compiler) (inputs : List UnitInput) (bench : Workbench)
    (suffixes : Nat) (hBench : bench.numbering = .startingAt suffixes) :
    match compiler.compileUnits inputs bench with
    | .error cause _ => ∃ done rest,
      compiler.aloneResults suffixes inputs = List.map .ok done ++ .error cause :: rest
    | .ok units after => ∃ alone,
      compiler.aloneResults suffixes inputs = List.map .ok alone ∧
      units = alone.map Prod.fst ∧
      after.registry.entries =
        bench.registry.entries ++ alone.flatMap fun result => result.2.entries := by
  induction inputs generalizing bench suffixes with
  | nil => exact ⟨[], rfl, rfl, (List.append_nil _).symm⟩
  | cons input inputs ih =>
    have hUnit := compiler.compileUnit_alone input hBench
    rw [aloneResults_cons, compileUnits_cons]
    generalize compiler.compileAlone input suffixes = result at hUnit ⊢
    rcases result with cause | ⟨unit, registry⟩
    · obtain ⟨_, hRun⟩ := hUnit
      rw [hRun]
      exact ⟨[], _, rfl⟩
    · obtain ⟨middle, hRun, hEntries, hSuffixes⟩ := hUnit
      have hRest := ih { middle with numbering := middle.numbering.nextFile } _
        (congrArg Numbering.startingAt hSuffixes)
      rw [hRun]
      dsimp only
      cases hRuns : compiler.compileUnits inputs
          { middle with numbering := middle.numbering.nextFile } with
      | error cause after =>
        rw [hRuns] at hRest
        obtain ⟨done, rest, hResults⟩ := hRest
        refine ⟨(unit, registry) :: done, rest, ?_⟩
        rw [hResults, List.map_cons, List.cons_append]
      | ok units after =>
        rw [hRuns] at hRest
        obtain ⟨alone, hResults, hUnits, hRegistry⟩ := hRest
        refine ⟨(unit, registry) :: alone, ?_, ?_, ?_⟩
        · rw [hResults, List.map_cons]
        · rw [hUnits, List.map_cons]
        · rw [hRegistry, hEntries, List.flatMap_cons, List.append_assoc]

/-- **A run is made of its units by themselves.** It compiles exactly if every unit does by itself,
starting at the number of chords in the units before it; then its units are those, and its registry
is made of theirs, one after the other. If it fails, it fails for the reason for which the first of
these units fails. The chords of a unit that can be read are the operations for simultaneous presses
that have been compiled in it. -/
theorem compile_eq_alone (compiler : Compiler) (inputs : List UnitInput) :
    ((∃ compilation, (compiler.compile inputs).1 = .ok compilation) ↔
      ∀ result ∈ compiler.aloneResults 0 inputs, ∃ alone, result = .ok alone) ∧
    (∀ compilation, (compiler.compile inputs).1 = .ok compilation →
      ∃ alone, compiler.aloneResults 0 inputs = List.map .ok alone ∧
        compilation.units = alone.map Prod.fst ∧
        compilation.registry.entries = alone.flatMap fun result => result.2.entries) ∧
    (∀ cause, (compiler.compile inputs).1 = .error cause →
      ∃ done rest,
        compiler.aloneResults 0 inputs = List.map .ok done ++ .error cause :: rest) ∧
    ∀ (input : UnitInput) (numbering : Numbering) (reading : Reading),
      compiler.readSources input.sources { numbering } = .ok () reading →
      reading.chordTables.length = (input.chords compiler.guards).length := by
  have hRun := compiler.compileUnits_alone inputs {} 0 rfl
  unfold compile
  cases hUnits : compiler.compileUnits inputs {} with
  | error cause bench =>
    rw [hUnits] at hRun
    refine ⟨⟨?_, ?_⟩, ?_, ?_, fun _ _ _ hRead => (chordTables_readSources hRead).1.length_eq⟩
    · rintro ⟨_, ⟨⟩⟩
    · intro hAll
      obtain ⟨done, rest, hResults⟩ := hRun
      obtain ⟨alone, hAlone⟩ := hAll (.error cause) (by simp [hResults])
      cases hAlone
    · rintro _ ⟨⟩
    · rintro _ ⟨⟩
      exact hRun
  | ok units bench =>
    rw [hUnits] at hRun
    refine ⟨⟨?_, ?_⟩, ?_, ?_, fun _ _ _ hRead => (chordTables_readSources hRead).1.length_eq⟩
    · intro _ result hResult
      obtain ⟨alone, hResults, _⟩ := hRun
      rw [hResults] at hResult
      obtain ⟨one, _, hOne⟩ := List.mem_map.mp hResult
      exact ⟨one, hOne.symm⟩
    · intro _
      exact ⟨_, rfl⟩
    · rintro _ ⟨⟩
      exact hRun
    · rintro _ ⟨⟩

end Compiler

end KeyRemap
