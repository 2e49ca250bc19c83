import KeyRemap.Proofs.Emission

/-!
# The slots of a run

Every table of a unit has a slot of its own, and the slots are handed out without gaps while rules
and sources come and go. A rule only remembers how far its own slots reach, and declares an array
of that size; so its slots must not go beyond it, whatever the other rules have taken.

* `Rule.takesSlots_compileLine`: a line takes the next slot, or none.
* `SlotsTaken`: the slots of the rules are those taken so far; each part preserves it.
* `Rule.DeclaresSlots`: the text of a rule declares an array for all slots in the rule.
* `Compiler.readUnits`: the readings that a run makes of its units.
* `Compiler.slots_of_compile`: the slots of all units of a run.
-/

namespace KeyRemap

/-! ## The slots of a part -/

namespace Rule

theorem tableSlots_finalize (rule : Rule) : rule.finalize.tableSlots = rule.tableSlots := by
  rw [tableSlots, tables_finalize, tableSlots]

theorem tableSlots_merge (first second : Rule) :
    (first.merge second).tableSlots = first.tableSlots ++ second.tableSlots := by
  rw [tableSlots, tables_merge, List.map_append, tableSlots, tableSlots]

/-- From one moment to another, the slots that are taken go to new tables of the rule. -/
def TakesSlots (rule : Rule) (numbering : Numbering) (rule' : Rule) (after : Numbering) : Prop :=
  ∃ taken, rule'.tableSlots = rule.tableSlots ++ taken ∧
    List.range numbering.slots ++ taken = List.range after.slots

theorem TakesSlots.of_eq {rule rule' : Rule} {numbering after : Numbering}
    (hTables : rule'.tableSlots = rule.tableSlots) (hSlots : after.slots = numbering.slots) :
    TakesSlots rule numbering rule' after := by
  refine ⟨[], ?_, ?_⟩
  · rw [hTables, List.append_nil]
  · rw [hSlots, List.append_nil]

theorem TakesSlots.trans {first second third : Rule} {before middle after : Numbering}
    (h₁ : TakesSlots first before second middle) (h₂ : TakesSlots second middle third after) :
    TakesSlots first before third after := by
  obtain ⟨taken, hTables, hRange⟩ := h₁
  obtain ⟨more, hMore, hRange'⟩ := h₂
  refine ⟨taken ++ more, ?_, ?_⟩
  · rw [hMore, hTables, List.append_assoc]
  · rw [← List.append_assoc, hRange, hRange']

/-- A line takes the next slot for a table of the rule, or leaves tables and slots alone. -/
theorem takesSlots_compileLine (resolver : Resolver) (line : String) (numbering : Numbering)
    (rule : Rule) :
    TakesSlots rule numbering (rule.compileLine resolver line numbering).rule
      (rule.compileLine resolver line numbering).numbering := by
  have hCase := compileLine_case resolver line numbering rule
  generalize rule.compileLine resolver line numbering = step at hCase ⊢
  cases hCase with
  | clause => exact .of_eq rfl rfl
  | plain => exact .of_eq rfl rfl
  | unknown => exact .of_eq rfl rfl
  | @expression _ _ statement _ _ _ hStatement =>
    have hHook := (Operation.expression?_spec hStatement).1
    have hTables := tables_push rule statement (Hook.ne_setup_of_takesExpressions hHook)
    exact .of_eq (congrArg (List.map Prod.fst) hTables) rfl
  | refused _ _ _ _ hOperands => exact .of_eq rfl (Operation.operands_slots hOperands)
  | @table _ _ _ after _ _ _ _ _ hOperands =>
    -- the slot is the next one, since a suffix may have been taken but no slot
    refine ⟨[after.slots], ?_, ?_⟩
    · rw [tableSlots, tables_addTable, List.map_append]
      rfl
    · rw [← Operation.operands_slots hOperands]
      exact List.range_succ.symm

end Rule

namespace Compiler

/-- A part has the slots that are taken while it is compiled. -/
theorem tableSlots_compilePart {compiler : Compiler} {part : Part} {rule : Rule}
    {numbering after : Numbering}
    (hRun : compiler.compilePart part numbering = .ok (rule, after)) :
    List.range numbering.slots ++ rule.tableSlots = List.range after.slots := by
  have hNew : (Rule.new part.name compiler.guards.fresh).tableSlots = [] := by
    simp [Rule.tableSlots, Rule.tables, Rule.new]
  have hTakes : Rule.TakesSlots (.new part.name compiler.guards.fresh) numbering rule after := by
    refine Rule.compileLines_induction
      (P := Rule.TakesSlots (.new part.name compiler.guards.fresh) numbering) ?_ ?_ hRun
    · intro rule numbering line h
      exact h.trans (Rule.takesSlots_compileLine compiler.resolver line numbering rule)
    · exact .of_eq rfl rfl
  obtain ⟨taken, hSlots, hRange⟩ := hTakes
  rw [hSlots, hNew, List.nil_append, hRange]

theorem reachable_compilePart {compiler : Compiler} {part : Part} {rule : Rule}
    {numbering after : Numbering}
    (hRun : compiler.compilePart part numbering = .ok (rule, after)) : rule.Reachable :=
  Rule.compileLines_induction (P := fun rule _ => rule.Reachable)
    (fun line h => .line compiler.resolver line _ h) (.new part.name compiler.guards.fresh) hRun

end Compiler

/-! ## The slots of collected rules -/

namespace Reading

/-- What holds of all rules, of one more, and of what it is merged to, holds when it is
collected. -/
theorem forall_collectInto {P : Rule → Prop} {rule : Rule} {rules : List Rule}
    (hRules : ∀ other ∈ rules, P other) (hRule : P rule)
    (hMerge : ∀ first ∈ rules, P (first.merge rule)) :
    ∀ other ∈ (collectInto rule rules).1, P other := by
  induction rules with
  | nil =>
    intro other hOther
    rw [List.mem_singleton.mp hOther]
    exact hRule
  | cons first rest ih =>
    intro other hOther
    have hRest := ih (fun _ h => hRules _ (List.mem_cons_of_mem _ h))
      (fun _ h => hMerge _ (List.mem_cons_of_mem _ h))
    unfold collectInto at hOther
    split at hOther
    · rcases List.mem_cons.mp hOther with rfl | hOther
      · exact hMerge first List.mem_cons_self
      · exact hRules other (List.mem_cons_of_mem _ hOther)
    · rcases List.mem_cons.mp hOther with rfl | hOther
      · exact hRules _ List.mem_cons_self
      · exact hRest other hOther

/-- What a merge puts one after the other, collecting a rule puts together, though it may move what
comes from the rule forward. -/
theorem flatMap_collectInto_perm {α : Type} (items : Rule → List α) (rule : Rule)
    (rules : List Rule)
    (hMerge : ∀ first ∈ rules, first.name = rule.name →
      items (first.merge rule) = items first ++ items rule) :
    ((collectInto rule rules).1.flatMap items).Perm (rules.flatMap items ++ items rule) := by
  induction rules with
  | nil => simp [collectInto]
  | cons first rest ih =>
    unfold collectInto
    split
    · rename_i hName
      rw [List.flatMap_cons, List.flatMap_cons, hMerge first List.mem_cons_self hName,
        List.append_assoc, List.append_assoc]
      exact List.perm_append_comm.append_left _
    · rw [List.flatMap_cons, List.flatMap_cons, List.append_assoc]
      exact (ih fun other hOther => hMerge other (List.mem_cons_of_mem _ hOther)).append_left _

/-- Collecting a rule loses no slot and adds none. -/
theorem tableSlots_collectInto (rule : Rule) (rules : List Rule) :
    ((collectInto rule rules).1.flatMap Rule.tableSlots).Perm
      (rules.flatMap Rule.tableSlots ++ rule.tableSlots) :=
  flatMap_collectInto_perm Rule.tableSlots rule rules fun first _ _ =>
    Rule.tableSlots_merge first rule

end Reading

/-- Rules that have, together, the slots taken so far: each once, and in every rule in order. -/
structure SlotsTaken (rules : List Rule) (numbering : Numbering) : Prop where
  together : (rules.flatMap Rule.tableSlots).Perm (List.range numbering.slots)
  ordered : ∀ rule ∈ rules, rule.tableSlots.Sublist (List.range numbering.slots)
  reachable : ∀ rule ∈ rules, rule.Reachable

namespace SlotsTaken

theorem start {numbering : Numbering} (h : numbering.slots = 0) : SlotsTaken [] numbering where
  together := by simp [h]
  ordered rule hRule := by cases hRule
  reachable rule hRule := by cases hRule

/-- The slots of a part come after all that have been taken, so they can stand behind those of any
rule. -/
theorem collect {compiler : Compiler} {rules : List Rule} {numbering after : Numbering}
    {part : Part} {rule : Rule} (h : SlotsTaken rules numbering)
    (hPart : compiler.compilePart part numbering = .ok (rule, after)) :
    SlotsTaken (Reading.collect rules rule) after := by
  have hRange := Compiler.tableSlots_compilePart hPart
  have hReachable : rule.finalize.Reachable :=
    .finalize (Compiler.reachable_compilePart hPart)
  refine ⟨?_, ?_, ?_⟩
  · have hPerm := Reading.tableSlots_collectInto rule.finalize rules
    rw [Rule.tableSlots_finalize] at hPerm
    rw [← hRange]
    exact hPerm.trans (h.together.append_right _)
  · rw [← hRange]
    apply Reading.forall_collectInto
    · intro other hOther
      exact (h.ordered other hOther).trans (List.sublist_append_left _ _)
    · rw [Rule.tableSlots_finalize]
      exact List.sublist_append_right _ _
    · intro first hFirst
      rw [Rule.tableSlots_merge, Rule.tableSlots_finalize]
      exact (h.ordered first hFirst).append (List.Sublist.refl _)
  · apply Reading.forall_collectInto h.reachable hReachable
    intro first hFirst
    exact .merge (h.reachable first hFirst) hReachable

theorem readSources {compiler : Compiler} {sources : List Source} {numbering : Numbering}
    {reading : Reading} (hFresh : numbering.slots = 0)
    (hRun : compiler.readSources sources { numbering } = .ok () reading) :
    SlotsTaken reading.rules reading.numbering :=
  Compiler.collectParts_induction (P := SlotsTaken) collect (start hFresh)
    (Compiler.collectParts_of_readSources hRun)

end SlotsTaken

/-! ## The array of a class -/

namespace Rule

/-- The text of a rule declares an array of some size for the slots of the rule. If the rule has a
statement, the text is a class with the declaration at its end and the definition behind it; and
every slot in the rule, inside blocks or not, is an index into the array. -/
structure DeclaresSlots (rule : Rule) (size : Nat) (code : String) : Prop where
  declared : rule.HasStatement → ∃ body, code =
    "class RemapClass_" ++ rule.name ++ " \x7b\n" ++ body ++
      ("\nprivate:\nstatic RemapClass::Item value_[" ++ size.repr ++
        "];\n\x7d;\nRemapClass::Item RemapClass_" ++ rule.name ++ "::value_[" ++ size.repr ++
        "];\n\n\n")
  lt_size : ∀ hook,
    ∀ slot ∈ (Statement.flattenAll (rule.fragments.get hook)).filterMap Statement.slot?,
      slot < size

theorem Reachable.declaresSlots {resolver : Resolver} {rule : Rule} {item : Rendered}
    (hRule : rule.Reachable) (hRender : rule.render resolver = .ok item) :
    rule.DeclaresSlots (max rule.slotCount 1) item.code where
  declared hSome := by
    rcases render_case hRender with ⟨hNone, _⟩ | ⟨_, _, enabled, _, hCode⟩
    · exact absurd hSome hNone
    · have hPublic : " \x7b\npublic:\n" = " \x7b\n" ++ "public:\n" := by decide +kernel
      refine ⟨"public:\n" ++ String.join (rule.definedHooks.map rule.hookText) ++
        enabledText enabled, ?_⟩
      rw [hCode, classText, openingText_eq, storageText_eq]
      simp only [hPublic, String.append_assoc]
  lt_size hook slot hSlot := by
    have hBound := hRule.inStep.lt_slotCount hSlot
    omega

end Rule

/-! ## The units of a run -/

namespace Compiler

/-- The readings that a run makes of its units: each starts with fresh slots and goes on with the
suffixes of those before it. -/
def readUnits (compiler : Compiler) :
    List UnitInput → Numbering → Except CompileError (List Reading)
  | [], _ => .ok []
  | input :: inputs, numbering =>
    match compiler.readSources input.sources { numbering } with
    | .error cause _ => .error cause
    | .ok () reading => do
      let readings ← compiler.readUnits inputs reading.numbering.nextFile
      return reading :: readings

theorem compileUnits_cons (compiler : Compiler) (input : UnitInput) (inputs : List UnitInput)
    (bench : Workbench) :
    compiler.compileUnits (input :: inputs) bench =
      match compiler.compileUnit input bench with
      | .ok unit middle =>
        match compiler.compileUnits inputs
            { middle with numbering := middle.numbering.nextFile } with
        | .ok units after => .ok (unit :: units) after
        | .error cause after => .error cause after
      | .error cause after => .error cause after := by
  have hModify : ∀ (change : Workbench → Workbench) (bench : Workbench),
      (modify change : EStateM CompileError Workbench PUnit) bench = .ok ⟨⟩ (change bench) :=
    fun _ _ => rfl
  simp only [compileUnits, bind, EStateM.bind, hModify, pure, EStateM.pure]
  cases compiler.compileUnit input bench with
  | error cause after => rfl
  | ok unit middle =>
    dsimp only
    cases compiler.compileUnits inputs { middle with numbering := middle.numbering.nextFile } <;>
      rfl

theorem exists_of_compileUnits_cons {compiler : Compiler} {input : UnitInput}
    {inputs : List UnitInput} {bench after : Workbench} {units : List CompiledUnit}
    (hRun : compiler.compileUnits (input :: inputs) bench = .ok units after) :
    ∃ unit middle rest, units = unit :: rest ∧
      compiler.compileUnit input bench = .ok unit middle ∧
      compiler.compileUnits inputs { middle with numbering := middle.numbering.nextFile } =
        .ok rest after := by
  rw [compileUnits_cons] at hRun
  split at hRun
  · rename_i unit middle hUnit
    split at hRun
    · rename_i rest after' hRest
      cases hRun
      exact ⟨unit, middle, rest, rfl, hUnit, hRest⟩
    · cases hRun
  · cases hRun

/-- Every unit of a run comes from a reading, whose rules have its slots and, written out one by
one, make its code. -/
theorem slotsTaken_of_compileUnits {compiler : Compiler} {inputs : List UnitInput}
    {bench after : Workbench} {units : List CompiledUnit}
    (hFresh : bench.numbering.slots = 0)
    (hRun : compiler.compileUnits inputs bench = .ok units after) :
    ∃ readings, compiler.readUnits inputs bench.numbering = .ok readings ∧
      List.Forall₂
        (fun reading unit => unit.rules = reading.rules.map Rule.name ∧
          unit.slotCount = reading.numbering.slots ∧
          SlotsTaken reading.rules reading.numbering ∧
          ∃ items : List Rule.Rendered, unit.code = String.join (items.map (·.code)) ∧
            List.Forall₂ (fun rule item => rule.render compiler.resolver = .ok item)
              reading.rules items)
        readings units := by
  induction inputs generalizing bench units with
  | nil =>
    cases hRun
    exact ⟨[], rfl, .nil⟩
  | cons input inputs ih =>
    obtain ⟨unit, middle, rest, rfl, hUnit, hRest⟩ := exists_of_compileUnits_cons hRun
    obtain ⟨reading, items, hRead, hItems, hNumbering, _, hRules, hCode, hCount⟩ :=
      exists_of_compileUnit hUnit
    obtain ⟨readings, hReadings, hUnits⟩ := ih rfl hRest
    refine ⟨reading :: readings, ?_,
      .cons ⟨hRules, hCount, .readSources hFresh hRead, items, hCode, hItems⟩ hUnits⟩
    rw [hNumbering] at hReadings
    simp only [readUnits, hRead]
    rw [hReadings]
    rfl

/-- **The slots of a run fit.** The tables of all rules of a unit have, together, the slots from
zero up to the unit's slot count, each of them once; in every rule the slots increase; and tables
are set up in the setup hook only. The code of a unit is made of the texts of its rules, and in the
text of a rule the class declares an array that every slot of the rule is an index into. -/
theorem slots_of_compile {compiler : Compiler} {inputs : List UnitInput}
    {compilation : Compilation} (hRun : (compiler.compile inputs).1 = .ok compilation) :
    ∃ readings, compiler.readUnits inputs {} = .ok readings ∧
      List.Forall₂
        (fun reading unit =>
          unit.rules = reading.rules.map Rule.name ∧
          (reading.rules.flatMap Rule.tableSlots).Perm (List.range unit.slotCount) ∧
          (∀ rule ∈ reading.rules,
            rule.tableSlots.Pairwise (· < ·) ∧
            ∀ hook, hook ≠ .setup →
              ∀ statement ∈ Statement.flattenAll (rule.fragments.get hook),
                statement.table? = none) ∧
          ∃ items : List Rule.Rendered, unit.code = String.join (items.map (·.code)) ∧
            List.Forall₂
              (fun rule item => rule.render compiler.resolver = .ok item ∧
                rule.DeclaresSlots (max rule.slotCount 1) item.code)
              reading.rules items)
        readings compilation.units := by
  unfold compile at hRun
  split at hRun
  · rename_i units after hUnits
    cases hRun
    have hFresh : ({} : Workbench).numbering.slots = 0 := rfl
    obtain ⟨readings, hReadings, hTaken⟩ := slotsTaken_of_compileUnits hFresh hUnits
    refine ⟨readings, hReadings, hTaken.imp ?_⟩
    intro reading unit ⟨hRules, hCount, hSlots, items, hCode, hItems⟩
    refine ⟨hRules, hCount ▸ hSlots.together, ?_, items, hCode, ?_⟩
    · intro rule hRule
      have hStep := (hSlots.reachable rule hRule).inStep
      refine ⟨List.pairwise_lt_range.sublist (hSlots.ordered rule hRule), ?_⟩
      intro hook hSetup statement hMem
      exact hStep.table?_eq_none hSetup hMem
    · have hReachable := (List.forall₂_and_left _ _).mpr ⟨hSlots.reachable, hItems⟩
      exact hReachable.imp fun rule item ⟨hRule, hRender⟩ =>
        ⟨hRender, hRule.declaresSlots hRender⟩
  · cases hRun

/-- A rule that goes on in a later source has slots before and behind that of another rule, and an
array with a place for all three; the next unit starts at zero again. -/
theorem slots_of_compile_interleaved :
    ∃ inputs compilation readings first second third,
      inputs =
        [⟨"u",
          [⟨"1", "<identifier>a</identifier>\n<autogen>--KeyToKey-- KeyCode::A</autogen>"⟩,
            ⟨"2", "<identifier>b</identifier>\n<autogen>--KeyToKey-- KeyCode::A</autogen>"⟩,
            ⟨"3", "<identifier>a</identifier>\n<autogen>--KeyToKey-- KeyCode::A</autogen>"⟩]⟩,
        ⟨"v", [⟨"4", "<identifier>a</identifier>\n<autogen>--KeyToKey-- KeyCode::A</autogen>"⟩]⟩] ∧
      (compile { resolver := .constant 7 } inputs).1 = .ok compilation ∧
      readUnits { resolver := .constant 7 } inputs {} = .ok readings ∧
      readings.map (fun reading => reading.rules.map Rule.tableSlots) =
        [[[0, 2], [1]], [[0]]] ∧
      readings.map (fun reading => reading.rules.map fun rule =>
        (Statement.flattenAll (rule.fragments.get .key)).filterMap Statement.slot?) =
          [[[0, 2], [1]], [[0]]] ∧
      compilation.units.map (·.slotCount) = [3, 1] ∧
      compilation.units.map (·.code) =
        ["class RemapClass_a \x7b\n" ++ first ++
          ("\nprivate:\nstatic RemapClass::Item value_[3];\n\x7d;\n" ++
            "RemapClass::Item RemapClass_a::value_[3];\n\n\n") ++
          ("class RemapClass_b \x7b\n" ++ second ++
            ("\nprivate:\nstatic RemapClass::Item value_[2];\n\x7d;\n" ++
              "RemapClass::Item RemapClass_b::value_[2];\n\n\n")),
        "class RemapClass_a \x7b\n" ++ third ++
          ("\nprivate:\nstatic RemapClass::Item value_[1];\n\x7d;\n" ++
            "RemapClass::Item RemapClass_a::value_[1];\n\n\n")] := by
  generalize hCompiler : ({ resolver := .constant 7 } : Compiler) = compiler
  obtain ⟨inputs, hInputs⟩ : ∃ inputs : List UnitInput, inputs =
      [⟨"u",
        [⟨"1", "<identifier>a</identifier>\n<autogen>--KeyToKey-- KeyCode::A</autogen>"⟩,
          ⟨"2", "<identifier>b</identifier>\n<autogen>--KeyToKey-- KeyCode::A</autogen>"⟩,
          ⟨"3", "<identifier>a</identifier>\n<autogen>--KeyToKey-- KeyCode::A</autogen>"⟩]⟩,
      ⟨"v", [⟨"4", "<identifier>a</identifier>\n<autogen>--KeyToKey-- KeyCode::A</autogen>"⟩]⟩] :=
    ⟨_, rfl⟩
  obtain ⟨hOk, hTables, hUses, hFacts⟩ :
      (compiler.compile inputs).1.toOption.map (fun compilation =>
        compilation.units.map (·.slotCount)) = some [3, 1] ∧
      (compiler.readUnits inputs {}).toOption.map (fun readings =>
        readings.map fun reading => reading.rules.map Rule.tableSlots) =
          some [[[0, 2], [1]], [[0]]] ∧
      (compiler.readUnits inputs {}).toOption.map (fun readings =>
        readings.map fun reading => reading.rules.map fun rule =>
          (Statement.flattenAll (rule.fragments.get .key)).filterMap Statement.slot?) =
            some [[[0, 2], [1]], [[0]]] ∧
      (compiler.readUnits inputs {}).toOption.map (fun readings =>
        readings.map fun reading => reading.rules.map fun rule =>
          (rule.name, rule.slotCount, decide rule.HasStatement)) =
            some [[("a", 3, true), ("b", 2, true)], [("a", 1, true)]] := by
    subst hCompiler hInputs
    decide +kernel
  cases hRun : (compiler.compile inputs).1 with
  | error cause =>
    rw [hRun] at hOk
    cases hOk
  | ok compilation =>
    obtain ⟨readings, hReadings, hUnits⟩ := slots_of_compile hRun
    rw [hRun] at hOk
    rw [hReadings] at hTables hUses hFacts
    have hCounts : compilation.units.map (·.slotCount) = [3, 1] := Option.some.inj hOk
    have hTables := Option.some.inj hTables
    have hUses := Option.some.inj hUses
    obtain ⟨u, v, rfl, hU, hV⟩ := exists_of_map_eq_pair (Option.some.inj hFacts)
    obtain ⟨a, b, hURules, hA, hB⟩ := exists_of_map_eq_pair hU
    obtain ⟨c, hVRules, hC⟩ := List.map_eq_singleton_iff.mp hV
    generalize hCompiled : compilation.units = units at hUnits
    obtain _ | ⟨⟨_, _, _, uItems, hUCode, hUItems⟩,
      _ | ⟨⟨_, _, _, vItems, hVCode, hVItems⟩, _ | _⟩⟩ := hUnits
    rw [hURules] at hUItems
    rw [hVRules] at hVItems
    obtain _ | ⟨⟨_, hAItem⟩, _ | ⟨⟨_, hBItem⟩, _ | _⟩⟩ := hUItems
    obtain _ | ⟨⟨_, hCItem⟩, _ | _⟩ := hVItems
    simp only [Prod.mk.injEq, decide_eq_true_eq] at hA hB hC
    obtain ⟨first, hFirst⟩ := hAItem.declared hA.2.2
    obtain ⟨second, hSecond⟩ := hBItem.declared hB.2.2
    obtain ⟨third, hThird⟩ := hCItem.declared hC.2.2
    refine ⟨inputs, compilation, _, first, second, third, hInputs, hRun, hReadings, hTables,
      hUses, hCounts, ?_⟩
    rw [hA.1, hA.2.1] at hFirst
    rw [hB.1, hB.2.1] at hSecond
    rw [hC.1, hC.2.1] at hThird
    have hSizes : Nat.repr 3 = "3" ∧ Nat.repr 2 = "2" ∧ Nat.repr 1 = "1" := by decide
    simp [hCompiled, hUCode, hVCode, hFirst, hSecond, hThird, String.join, hSizes]

end Compiler

end KeyRemap
