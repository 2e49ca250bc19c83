import KeyRemap.Proofs.Failure

/-!
# Sources added at the end

A unit reads all its sources before it writes out the first rule. Still, sources that open only new
rules can be added at the end without a change in what comes before: the unit compiles exactly if
the old sources do and, on the workbench they leave, the added ones; it is then the one unit behind
the other.

* `Compiler.collectParts_behind`: parts of new rules leave the rules that are there alone.
* `Compiler.writeParts_append`: what parts are written out as, if later parts open new rules only.
* `Compiler.compileUnit_eq_writeParts`: a unit in terms of what its parts are written out as.
* `Compiler.compileUnit_append`: a unit with added sources is two units one behind the other.
-/

namespace KeyRemap

/-! ## Parts of new rules -/

namespace Reading

theorem collectInto_append {rule : Rule} {before : List Rule}
    (h : rule.name ∉ before.map Rule.name) (rules : List Rule) :
    (collectInto rule (before ++ rules)).1 = before ++ (collectInto rule rules).1 := by
  induction before with
  | nil => rfl
  | cons first before ih =>
    obtain ⟨hFirst, hBefore⟩ : rule.name ≠ first.name ∧ rule.name ∉ before.map Rule.name := by
      simpa only [List.map_cons, List.mem_cons, not_or] using h
    simp only [List.cons_append, collectInto, hFirst.symm, if_false, ih hBefore]

theorem collect_append {part : Rule} {before : List Rule}
    (h : part.name ∉ before.map Rule.name) (rules : List Rule) :
    collect (before ++ rules) part = before ++ collect rules part := by
  rw [← name_finalize] at h
  exact collectInto_append h rules

end Reading

namespace Compiler

/-- Parts of new rules are collected behind the rules that are there, as if these were not there. -/
theorem collectParts_behind (compiler : Compiler) {parts : List Part} {before : List Rule}
    (hNew : ∀ part ∈ parts, part.name ∉ before.map Rule.name) (rules : List Rule)
    (numbering : Numbering) :
    compiler.collectParts parts (before ++ rules) numbering =
      (compiler.collectParts parts rules numbering).map fun (collected, after) =>
        (before ++ collected, after) := by
  induction parts generalizing rules numbering with
  | nil => rfl
  | cons part parts ih =>
    obtain ⟨hPart, hParts⟩ := List.forall_mem_cons.mp hNew
    simp only [collectParts]
    cases hCompile : compiler.compilePart part numbering with
    | error cause => rfl
    | ok compiled =>
      have hName := (compilePart_spec hCompile).1
      simp only [Reading.collect_append (hName ▸ hPart)]
      exact ih hParts _ _

theorem writeOut_append (compiler : Compiler) (first second : List Rule) :
    compiler.writeOut (first ++ second) =
      match compiler.writeOut first with
      | (items, some cause) => (items, some cause)
      | (items, none) =>
        let (more, fault) := compiler.writeOut second
        (items ++ more, fault) := by
  induction first with
  | nil => rfl
  | cons rule first ih =>
    simp only [List.cons_append, writeOut]
    cases rule.render compiler.resolver with
    | error cause => rfl
    | ok item =>
      simp only [ih]
      rcases compiler.writeOut first with ⟨items, _ | cause⟩ <;> rfl

/-- What parts are written out as, and the numbering behind them, if all of it compiles. -/
def writeParts (compiler : Compiler) (parts : List Part) (numbering : Numbering) :
    Option (List Rule.Rendered × Numbering) :=
  match compiler.collectParts parts [] numbering with
  | .error _ => none
  | .ok (rules, after) =>
    match compiler.writeOut rules with
    | (_, some _) => none
    | (items, none) => some (items, after)

/-- Parts that open new rules only are written out as they are alone, behind those before them. All
parts are collected before the first rule is written out; that makes no difference, since the rules
of the first parts are not touched any more. -/
theorem writeParts_append {compiler : Compiler} {first second : List Part}
    (hNew : ∀ name ∈ second.map Part.name, name ∉ first.map Part.name) (numbering : Numbering) :
    compiler.writeParts (first ++ second) numbering =
      (compiler.writeParts first numbering).bind fun (items, middle) =>
        (compiler.writeParts second middle).map fun (more, after) => (items ++ more, after) := by
  unfold writeParts
  rw [collectParts_append]
  cases hFirst : compiler.collectParts first [] numbering with
  | error cause => rfl
  | ok collected =>
    obtain ⟨rules, middle⟩ := collected
    have hStart : ([] : List Rule).map Rule.name = ([] : List String).eraseDups := rfl
    have hNames : rules.map Rule.name = (first.map Part.name).eraseDups :=
      names_collectParts hStart hFirst
    have hBehind : ∀ part ∈ second, part.name ∉ rules.map Rule.name := by
      intro part hPart
      rw [hNames, List.mem_eraseDups]
      exact hNew part.name (List.mem_map_of_mem hPart)
    have hSecond := compiler.collectParts_behind hBehind [] middle
    rw [List.append_nil] at hSecond
    simp only [hSecond]
    cases hAlone : compiler.collectParts second [] middle with
    | error cause =>
      rcases compiler.writeOut rules with ⟨items, _ | fault⟩ <;> simp [Except.map, hAlone]
    | ok later =>
      simp only [Except.map, writeOut_append]
      rcases compiler.writeOut rules with ⟨items, _ | fault⟩
      · rcases hMore : compiler.writeOut later.1 with ⟨more, _ | fault⟩ <;> simp [hAlone, hMore]
      · rfl

/-! ## Units one behind the other -/

/-- A unit compiles exactly if its parts can be written out, and is made of what they are written out
as. -/
theorem compileUnit_eq_writeParts (compiler : Compiler) (input : UnitInput) (bench : Workbench) :
    match compiler.writeParts (input.sources.flatMap Source.parts) bench.numbering with
    | none => ∃ cause after, compiler.compileUnit input bench = .error cause after
    | some (items, numbering) => ∃ events, compiler.compileUnit input bench =
      .ok
        { name := input.name
          code := String.join (items.map (·.code))
          rules := items.map (·.entry.name)
          slotCount := numbering.slots }
        { numbering
          registry := ⟨bench.registry.entries ++ items.map (·.entry)⟩
          events } := by
  have hOutcome := compiler.readSources_outcome input.sources { numbering := bench.numbering } rfl
  unfold writeParts compileUnit
  rw [← hOutcome]
  cases compiler.readSources input.sources { numbering := bench.numbering } with
  | error cause reading => exact ⟨_, _, rfl⟩
  | ok _ reading =>
    obtain ⟨logged, _, hEmit⟩ :=
      compiler.emitRules_eq reading.rules { registry := bench.registry }
    simp only [Reading.outcome, hEmit]
    rcases compiler.writeOut reading.rules with ⟨items, _ | cause⟩
    · exact ⟨_, by simp [Emission.extend]; rfl⟩
    · exact ⟨_, _, rfl⟩

/-- Units with sources and with others behind them: either all compile, and the one is made of the
other two, or the unit with all sources fails and one of the other two does. -/
theorem compileUnit_append_cases (compiler : Compiler) (name firstName secondName : String)
    {first second : List Source} (bench : Workbench)
    (hNew : ∀ opened ∈ Source.headerNames second, opened ∉ Source.headerNames first) :
    (∃ unit₁ middle unit₂ after after',
      compiler.compileUnit ⟨firstName, first⟩ bench = .ok unit₁ middle ∧
      compiler.compileUnit ⟨secondName, second⟩ middle = .ok unit₂ after ∧
      compiler.compileUnit ⟨name, first ++ second⟩ bench =
        .ok
          { name
            code := unit₁.code ++ unit₂.code
            rules := unit₁.rules ++ unit₂.rules
            slotCount := unit₂.slotCount }
          after' ∧
      after'.numbering = after.numbering ∧ after'.registry = after.registry) ∨
    (∃ cause after, compiler.compileUnit ⟨name, first ++ second⟩ bench = .error cause after) ∧
      ∀ unit₁ middle, compiler.compileUnit ⟨firstName, first⟩ bench = .ok unit₁ middle →
        ∃ cause after, compiler.compileUnit ⟨secondName, second⟩ middle = .error cause after := by
  have hWhole := compiler.compileUnit_eq_writeParts ⟨name, first ++ second⟩ bench
  have hFirst := compiler.compileUnit_eq_writeParts ⟨firstName, first⟩ bench
  rw [← Source.names_parts, ← Source.names_parts] at hNew
  simp only [List.flatMap_append, writeParts_append hNew] at hWhole
  cases hItems : compiler.writeParts (first.flatMap Source.parts) bench.numbering with
  | none =>
    simp only [hItems, Option.bind_none] at hFirst hWhole
    refine .inr ⟨hWhole, ?_⟩
    intro unit₁ middle hRun
    obtain ⟨_, _, hError⟩ := hFirst
    cases hError.symm.trans hRun
  | some written =>
    obtain ⟨items, numbering⟩ := written
    simp only [hItems, Option.bind_some] at hFirst hWhole
    obtain ⟨events, hFirst⟩ := hFirst
    have hSecond := compiler.compileUnit_eq_writeParts ⟨secondName, second⟩
      { numbering, registry := ⟨bench.registry.entries ++ items.map (·.entry)⟩, events }
    cases hMore : compiler.writeParts (second.flatMap Source.parts) numbering with
    | none =>
      simp only [hMore, Option.map_none] at hSecond hWhole
      refine .inr ⟨hWhole, ?_⟩
      intro unit₁ middle hRun
      cases hFirst.symm.trans hRun
      exact hSecond
    | some added =>
      simp only [hMore, Option.map_some] at hSecond hWhole
      obtain ⟨_, hSecond⟩ := hSecond
      obtain ⟨_, hWhole⟩ := hWhole
      simp only [List.map_append, String.join_append] at hWhole
      refine .inl ⟨_, _, _, _, _, hFirst, hSecond, hWhole, rfl, ?_⟩
      rw [List.append_assoc]

/-- **Added sources leave the earlier ones alone.** Where sources at the end open no rule that the
sources before them open, a unit with all of them compiles exactly if the first sources compile and
the added ones compile on the workbench that the first leave. Code and rules are then those of the
first sources and behind them those of the added ones; slot count, numbering and registry at the end
are those of the added sources. -/
theorem compileUnit_append (compiler : Compiler) (name firstName secondName : String)
    {first second : List Source} (bench : Workbench)
    (hNew : ∀ opened ∈ Source.headerNames second, opened ∉ Source.headerNames first) :
    ((∃ whole after, compiler.compileUnit ⟨name, first ++ second⟩ bench = .ok whole after) ↔
      ∃ unit₁ middle, compiler.compileUnit ⟨firstName, first⟩ bench = .ok unit₁ middle ∧
        ∃ unit₂ after, compiler.compileUnit ⟨secondName, second⟩ middle = .ok unit₂ after) ∧
    ∀ unit₁ middle unit₂ after,
      compiler.compileUnit ⟨firstName, first⟩ bench = .ok unit₁ middle →
      compiler.compileUnit ⟨secondName, second⟩ middle = .ok unit₂ after →
      ∃ whole after', compiler.compileUnit ⟨name, first ++ second⟩ bench = .ok whole after' ∧
        whole.code = unit₁.code ++ unit₂.code ∧
        whole.rules = unit₁.rules ++ unit₂.rules ∧
        whole.slotCount = unit₂.slotCount ∧
        after'.numbering = after.numbering ∧ after'.registry = after.registry := by
  rcases compiler.compileUnit_append_cases name firstName secondName bench hNew with
    ⟨unit₁, middle, unit₂, after, after', hFirst, hSecond, hWhole, hNumbering, hRegistry⟩ |
    ⟨⟨cause, after, hWhole⟩, hFails⟩
  · refine ⟨⟨fun _ => ⟨unit₁, middle, hFirst, unit₂, after, hSecond⟩, fun _ => ⟨_, _, hWhole⟩⟩, ?_⟩
    intro unit₁' middle' unit₂' afterSecond hRun₁ hRun₂
    cases hFirst.symm.trans hRun₁
    cases hSecond.symm.trans hRun₂
    exact ⟨_, _, hWhole, rfl, rfl, rfl, hNumbering, hRegistry⟩
  · have hNever : ∀ unit₁ middle unit₂ after,
        compiler.compileUnit ⟨firstName, first⟩ bench = .ok unit₁ middle →
        compiler.compileUnit ⟨secondName, second⟩ middle ≠ .ok unit₂ after := by
      intro unit₁ middle unit₂ after hRun₁ hRun₂
      obtain ⟨_, _, hError⟩ := hFails unit₁ middle hRun₁
      cases hError.symm.trans hRun₂
    refine ⟨⟨?_, ?_⟩, ?_⟩
    · rintro ⟨whole, afterWhole, hRun⟩
      cases hWhole.symm.trans hRun
    · rintro ⟨unit₁, middle, hRun₁, unit₂, after, hRun₂⟩
      exact absurd hRun₂ (hNever unit₁ middle unit₂ after hRun₁)
    · intro unit₁ middle unit₂ after hRun₁ hRun₂
      exact absurd hRun₂ (hNever unit₁ middle unit₂ after hRun₁)

/-- A second source with a rule of its own, on a workbench that has been used: its slot and its
entry come behind those of the first source. -/
theorem compileUnit_append_one_rule_each :
    ∃ compiler first second bench whole after,
      compiler = ({ resolver := .constant 7 } : Compiler) ∧
      first = [⟨"1", "<identifier>a</identifier>\n<autogen>--KeyToKey-- KeyCode::A</autogen>"⟩] ∧
      second = [⟨"2", "<identifier>b</identifier>\n" ++
        "<autogen>--SimultaneousKeyPresses-- KeyCode::A</autogen>"⟩] ∧
      bench = { numbering := ⟨2, 1⟩, registry := ⟨[.absent "b"]⟩ } ∧
      compiler.compileUnit ⟨"u", first ++ second⟩ bench = .ok whole after ∧
      whole.rules = ["a", "b"] ∧ whole.slotCount = 4 ∧ after.numbering = ⟨4, 2⟩ ∧
      after.registry.entries.map (·.name) = ["b", "a", "b"] := by
  obtain ⟨compiler, hCompiler⟩ : ∃ compiler : Compiler, compiler = { resolver := .constant 7 } :=
    ⟨_, rfl⟩
  obtain ⟨first, hFirst⟩ : ∃ first : List Source, first =
      [⟨"1", "<identifier>a</identifier>\n<autogen>--KeyToKey-- KeyCode::A</autogen>"⟩] :=
    ⟨_, rfl⟩
  obtain ⟨second, hSecond⟩ : ∃ second : List Source, second =
      [⟨"2", "<identifier>b</identifier>\n" ++
        "<autogen>--SimultaneousKeyPresses-- KeyCode::A</autogen>"⟩] :=
    ⟨_, rfl⟩
  obtain ⟨bench, hBench⟩ : ∃ bench : Workbench, bench =
      { numbering := ⟨2, 1⟩, registry := ⟨[.absent "b"]⟩ } :=
    ⟨_, rfl⟩
  obtain ⟨hNew, hFacts⟩ :
      (∀ opened ∈ Source.headerNames second, opened ∉ Source.headerNames first) ∧
      (match compiler.compileUnit ⟨"u", first⟩ bench with
        | .error _ _ => none
        | .ok unit₁ middle =>
          match compiler.compileUnit ⟨"u", second⟩ middle with
          | .error _ _ => none
          | .ok unit₂ after =>
            some (unit₁.rules ++ unit₂.rules, unit₂.slotCount, after.numbering,
              after.registry.entries.map (·.name))) =
        some (["a", "b"], 4, ⟨4, 2⟩, ["b", "a", "b"]) := by
    subst hCompiler hFirst hSecond hBench
    decide +kernel
  cases hRun₁ : compiler.compileUnit ⟨"u", first⟩ bench with
  | error cause middle =>
    rw [hRun₁] at hFacts
    cases hFacts
  | ok unit₁ middle =>
    cases hRun₂ : compiler.compileUnit ⟨"u", second⟩ middle with
    | error cause after =>
      simp only [hRun₁, hRun₂] at hFacts
      cases hFacts
    | ok unit₂ after =>
      simp only [hRun₁, hRun₂, Option.some.injEq, Prod.mk.injEq] at hFacts
      obtain ⟨hRules, hSlots, hNumbering, hNames⟩ := hFacts
      obtain ⟨whole, after', hWhole, _, hWholeRules, hWholeSlots, hAfter, hRegistry⟩ :=
        (compiler.compileUnit_append "u" "u" "u" bench hNew).2 unit₁ middle unit₂ after hRun₁ hRun₂
      exact ⟨compiler, first, second, bench, whole, after', hCompiler, hFirst, hSecond, hBench,
        hWhole, hWholeRules.trans hRules, hWholeSlots.trans hSlots, hAfter.trans hNumbering,
        by rw [hRegistry, hNames]⟩

end Compiler

end KeyRemap
