import KeyRemap.Proofs.RuleLines

/-!
# When a unit fails

A unit can fail in two places. A line inside of a rule does not compile: then the first such line,
in the order of sources and lines, is what the unit fails with, and it is the last thing reported.
Or all lines compile and a rule that has statements lacks its flag: then the unit fails with the
first such rule, and the rules before it have entered the registry already.

* `Compiler.emitRules_eq`: what writing rules out does, also when it fails.
* `Compiler.compileUnit_case`: the three ways in which a unit can end.
* `Compiler.compileUnit_ok_iff`: exactly when and with what a unit fails.
* `Compiler.registry_of_failed_compileUnit`: what a failed unit leaves in the registry.
-/

namespace KeyRemap

/-! ## Writing rules out -/

namespace Emission

/-- What has been written out, with more items and reports behind. -/
def extend (emission : Emission) (items : List Rule.Rendered) (logged : List Event) :
    Emission where
  registry := ⟨emission.registry.entries ++ items.map (·.entry)⟩
  code := emission.code ++ String.join (items.map (·.code))
  rules := emission.rules ++ items.map (·.entry.name)
  events := emission.events ++ logged

theorem extend_nil (emission : Emission) : emission.extend [] [] = emission := by
  simp [extend]

theorem extend_extend (emission : Emission) (items more : List Rule.Rendered)
    (logged later : List Event) :
    (emission.extend items logged).extend more later =
      emission.extend (items ++ more) (logged ++ later) := by
  simp [extend, List.append_assoc, String.append_assoc]

end Emission

namespace Rule

theorem emit_of_render {resolver : Resolver} {rule : Rule} {item : Rendered}
    (h : rule.render resolver = .ok item) (emission : Emission) :
    rule.emit resolver emission =
      .ok () (emission.extend [item] (item.events ++ emission.registry.addEvents item.entry)) := by
  simp [emit, h, Emission.extend, Registry.add, (render_spec h).1, List.append_assoc]

/-- A rule cannot be written out exactly if it has statements and lacks its flag. -/
theorem render_eq_error_iff {resolver : Resolver} {rule : Rule} {cause : CompileError} :
    rule.render resolver = .error cause ↔
      rule.isEmpty = false ∧ rule.name ≠ passthroughRule ∧ resolver.flag? rule.name = none ∧
        cause = .noFlag rule.name := by
  unfold render Enabled.ofRule
  cases rule.isEmpty with
  | true => simp
  | false =>
    by_cases hName : rule.name = passthroughRule
    · simp [hName]
    · cases hFlag : resolver.flag? rule.name with
      | none => simp [hName, eq_comm]
      | some index =>
        simp only [hName, if_false]
        cases passthroughStem.toList.isPrefixOf rule.name.toList <;> simp

end Rule

namespace Compiler

/-- The rules written out up to the first that cannot be, and the reason if there is one. -/
def writeOut (compiler : Compiler) : List Rule → List Rule.Rendered × Option CompileError
  | [] => ([], none)
  | rule :: rules =>
    match rule.render compiler.resolver with
    | .error cause => ([], some cause)
    | .ok item =>
      let (items, fault) := compiler.writeOut rules
      (item :: items, fault)

/-- Writing rules out, in success and failure: what can be written is written and registered, and
nothing that is reported is an error. -/
theorem emitRules_eq (compiler : Compiler) (rules : List Rule) (before : Emission) :
    ∃ logged, Event.Quiet logged ∧ compiler.emitRules rules before =
      match compiler.writeOut rules with
      | (items, none) => .ok () (before.extend items logged)
      | (items, some cause) => .error cause (before.extend items logged) := by
  induction rules generalizing before with
  | nil =>
    refine ⟨[], .nil, ?_⟩
    simp only [emitRules, writeOut, before.extend_nil]
    rfl
  | cons rule rules ih =>
    cases hRender : rule.render compiler.resolver with
    | error cause =>
      refine ⟨[], .nil, ?_⟩
      simp only [emitRules, bind, EStateM.bind, Rule.emit, writeOut, hRender, before.extend_nil]
    | ok item =>
      obtain ⟨logged, hQuiet, hRest⟩ := ih
        (before.extend [item] (item.events ++ before.registry.addEvents item.entry))
      refine ⟨_, ((Event.Quiet.render hRender).append
        (.addEvents before.registry item.entry)).append hQuiet, ?_⟩
      simp only [emitRules, bind, EStateM.bind, Rule.emit_of_render hRender, hRest, writeOut,
        hRender, Emission.extend_extend, List.singleton_append]
      rcases compiler.writeOut rules with ⟨items, _ | cause⟩ <;> rfl

theorem render_of_writeOut {compiler : Compiler} {rules : List Rule} {items : List Rule.Rendered}
    (h : compiler.writeOut rules = (items, none)) :
    ∀ rule ∈ rules, ∃ item, rule.render compiler.resolver = .ok item := by
  induction rules generalizing items with
  | nil => simp
  | cons rule rules ih =>
    simp only [writeOut] at h
    split at h
    · cases h
    · rename_i item hRender
      rcases hRest : compiler.writeOut rules with ⟨later, fault⟩
      rw [hRest] at h
      cases h
      exact List.forall_mem_cons.mpr ⟨⟨item, hRender⟩, ih hRest⟩

/-- Where writing out stops, there is a first rule that cannot be written. -/
theorem exists_of_writeOut {compiler : Compiler} {rules : List Rule}
    {items : List Rule.Rendered} {cause : CompileError}
    (h : compiler.writeOut rules = (items, some cause)) :
    ∃ written rule rest, rules = written ++ rule :: rest ∧
      written.map Rule.name = items.map (·.entry.name) ∧
      (∀ rule ∈ written, ∃ item, rule.render compiler.resolver = .ok item) ∧
      rule.render compiler.resolver = .error cause := by
  induction rules generalizing items with
  | nil => cases h
  | cons rule rules ih =>
    simp only [writeOut] at h
    split at h
    · rename_i hRender
      cases h
      exact ⟨[], rule, rules, rfl, rfl, by simp, hRender⟩
    · rename_i item hRender
      rcases hRest : compiler.writeOut rules with ⟨later, fault⟩
      rw [hRest] at h
      cases h
      obtain ⟨written, failing, rest, rfl, hNames, hWritten, hFailing⟩ := ih hRest
      refine ⟨rule :: written, failing, rest, rfl, ?_, ?_, hFailing⟩
      · rw [List.map_cons, List.map_cons, hNames, (Rule.render_spec hRender).1]
      · exact List.forall_mem_cons.mpr ⟨⟨item, hRender⟩, hWritten⟩

end Compiler

/-! ## How a unit ends -/

/-- The first element of a list that has a property is the same however the list is split. -/
theorem eq_of_first {α : Type} {P : α → Prop} {before before' rest rest' : List α} {a a' : α}
    (h : before ++ a :: rest = before' ++ a' :: rest')
    (hBefore : ∀ b ∈ before, ¬ P b) (hBefore' : ∀ b ∈ before', ¬ P b) (ha : P a) (ha' : P a') :
    before = before' ∧ a = a' := by
  rcases List.append_eq_append_iff.mp h with ⟨more, rfl, hMore⟩ | ⟨more, rfl, hMore⟩
  · cases more with
    | nil =>
      cases hMore
      exact ⟨(List.append_nil before).symm, rfl⟩
    | cons b more =>
      cases hMore
      exact absurd ha (hBefore' a (by simp))
  · cases more with
    | nil =>
      cases hMore
      exact ⟨List.append_nil before', rfl⟩
    | cons b more =>
      cases hMore
      exact absurd ha' (hBefore a' (by simp))

namespace Compiler

/-- A rule has got a statement from a part and lacks the flag it needs for it. -/
def LacksFlag (compiler : Compiler) (sources : List Source) (numbering : Numbering)
    (name : String) : Prop :=
  (∃ part ∈ compiler.partsOf sources numbering name, ∃ hook,
    part.statements compiler hook ≠ []) ∧
  name ≠ passthroughRule ∧ compiler.resolver.flag? name = none

theorem render_eq_error_iff_lacksFlag {compiler : Compiler} {sources : List Source}
    {numbering : Numbering} {reading : Reading}
    (hRead : compiler.readSources sources { numbering } = .ok () reading) {rule : Rule}
    (hRule : rule ∈ reading.rules) {cause : CompileError} :
    rule.render compiler.resolver = .error cause ↔
      compiler.LacksFlag sources numbering rule.name ∧ cause = .noFlag rule.name := by
  have hEmpty : rule.isEmpty = false ↔
      ∃ part ∈ compiler.partsOf sources numbering rule.name, ∃ hook,
        part.statements compiler hook ≠ [] := by
    rw [← Bool.not_eq_true, isEmpty_iff_of_readSources hRead hRule]
    simp only [not_forall, exists_prop, ne_eq]
  rw [Rule.render_eq_error_iff, LacksFlag, hEmpty, and_assoc, and_assoc]

theorem not_lacksFlag_of_render {compiler : Compiler} {sources : List Source}
    {numbering : Numbering} {reading : Reading}
    (hRead : compiler.readSources sources { numbering } = .ok () reading) {rule : Rule}
    (hRule : rule ∈ reading.rules) {item : Rule.Rendered}
    (hRender : rule.render compiler.resolver = .ok item) :
    ¬ compiler.LacksFlag sources numbering rule.name := by
  intro hLacks
  have hError := (render_eq_error_iff_lacksFlag hRead hRule).mpr ⟨hLacks, rfl⟩
  cases hRender.symm.trans hError

/-- If all rules of a reading are written out, none of the names that headers give lacks its
flag. -/
theorem not_lacksFlag_of_writeOut {compiler : Compiler} {sources : List Source}
    {numbering : Numbering} {reading : Reading} {items : List Rule.Rendered}
    (hRead : compiler.readSources sources { numbering } = .ok () reading)
    (hWrite : compiler.writeOut reading.rules = (items, none)) :
    ∀ name ∈ Source.headerNames sources, ¬ compiler.LacksFlag sources numbering name := by
  intro name hName
  rw [← List.mem_eraseDups, ← Source.names_parts, ← names_readSources hRead] at hName
  obtain ⟨rule, hRule, rfl⟩ := List.mem_map.mp hName
  obtain ⟨item, hRender⟩ := render_of_writeOut hWrite rule hRule
  exact not_lacksFlag_of_render hRead hRule hRender

/-- If writing out stops, it stops at the first name that lacks its flag. -/
theorem exists_lacksFlag_of_writeOut {compiler : Compiler} {sources : List Source}
    {numbering : Numbering} {reading : Reading} {items : List Rule.Rendered}
    {cause : CompileError}
    (hRead : compiler.readSources sources { numbering } = .ok () reading)
    (hWrite : compiler.writeOut reading.rules = (items, some cause)) :
    ∃ name rest,
      (Source.headerNames sources).eraseDups = items.map (·.entry.name) ++ name :: rest ∧
      (∀ earlier ∈ items.map (·.entry.name), ¬ compiler.LacksFlag sources numbering earlier) ∧
      compiler.LacksFlag sources numbering name ∧ cause = .noFlag name := by
  obtain ⟨written, rule, rest, hRules, hNames, hWritten, hFailing⟩ := exists_of_writeOut hWrite
  have hRule : rule ∈ reading.rules := by
    rw [hRules]
    exact List.mem_append_right _ List.mem_cons_self
  obtain ⟨hLacks, hCause⟩ := (render_eq_error_iff_lacksFlag hRead hRule).mp hFailing
  refine ⟨rule.name, rest.map Rule.name, ?_, ?_, hLacks, hCause⟩
  · rw [← Source.names_parts, ← names_readSources hRead, hRules, List.map_append, hNames,
      List.map_cons]
  · rw [← hNames]
    intro earlier hEarlier
    obtain ⟨first, hFirst, rfl⟩ := List.mem_map.mp hEarlier
    obtain ⟨item, hRender⟩ := hWritten first hFirst
    have hMem : first ∈ reading.rules := by
      rw [hRules]
      exact List.mem_append_left _ hFirst
    exact not_lacksFlag_of_render hRead hMem hRender

/-- The three ways in which a unit can end. -/
inductive UnitCase (compiler : Compiler) (input : UnitInput) (bench : Workbench) :
    EStateM.Result CompileError Workbench CompiledUnit → Prop
  /-- A line inside of a rule does not compile. -/
  | line {line : RuleLine} {cause : CompileError} {after : Numbering} {logged : List Event}
      (hFault : (compiler.ruleLines input.sources bench.numbering).findSome?
        (RuleLine.fault? compiler.resolver) = some (line, cause))
      (hQuiet : Event.Quiet logged) :
      UnitCase compiler input bench
        (.error cause
          { bench with
            numbering := after
            events := bench.events ++ logged ++ [line.report cause] })
  /-- A rule cannot be written out. -/
  | rule {cause : CompileError} {reading : Reading} {items : List Rule.Rendered}
      {logged : List Event}
      (hLines : (compiler.ruleLines input.sources bench.numbering).findSome?
        (RuleLine.fault? compiler.resolver) = none)
      (hRead : compiler.readSources input.sources { numbering := bench.numbering } =
        .ok () reading)
      (hWrite : compiler.writeOut reading.rules = (items, some cause))
      (hQuiet : Event.Quiet logged) :
      UnitCase compiler input bench
        (.error cause
          { numbering := reading.numbering
            registry := ⟨bench.registry.entries ++ items.map (·.entry)⟩
            events := bench.events ++ logged })
  /-- All rules are written out. -/
  | done {unit : CompiledUnit} {after : Workbench} {reading : Reading}
      {items : List Rule.Rendered}
      (hLines : (compiler.ruleLines input.sources bench.numbering).findSome?
        (RuleLine.fault? compiler.resolver) = none)
      (hRead : compiler.readSources input.sources { numbering := bench.numbering } =
        .ok () reading)
      (hWrite : compiler.writeOut reading.rules = (items, none)) :
      UnitCase compiler input bench (.ok unit after)

theorem compileUnit_case (compiler : Compiler) (input : UnitInput) (bench : Workbench) :
    UnitCase compiler input bench (compiler.compileUnit input bench) := by
  obtain ⟨after, hEnds⟩ :=
    compiler.readSources_ends input.sources { numbering := bench.numbering } rfl
  unfold compileUnit
  cases hRead : compiler.readSources input.sources { numbering := bench.numbering } with
  | error cause reading =>
    rw [hRead] at hEnds
    obtain ⟨line, logged, hFault, hQuiet, hEvents⟩ := hEnds
    rw [List.nil_append] at hEvents
    simp only [hEvents, ← List.append_assoc]
    exact .line hFault hQuiet
  | ok _ reading =>
    rw [hRead] at hEnds
    obtain ⟨hLines, _, _, logged, hQuiet, hEvents⟩ := hEnds
    rw [List.nil_append] at hEvents
    obtain ⟨later, hLater, hEmit⟩ :=
      compiler.emitRules_eq reading.rules { registry := bench.registry }
    simp only [hEmit, hEvents]
    rcases hWrite : compiler.writeOut reading.rules with ⟨items, _ | cause⟩
    · exact .done hLines hRead hWrite
    · simp only [Emission.extend, List.nil_append, List.append_assoc]
      exact .rule hLines hRead hWrite (hQuiet.append hLater)

/-- **When and with what a unit fails.** The lines inside of rules are those of the parts of the
sources. A unit compiles exactly if all of them do and no rule that has got a statement lacks its
flag. Otherwise it fails with the first line inside of a rule that does not compile, if there is
one: the error carries the name of the rule that is open there, and the last report, the only error
among them, begins with the label of the source and the number of the line. If all lines compile, it fails with the first rule that lacks its
flag, and no error is reported. -/
theorem compileUnit_ok_iff (compiler : Compiler) (input : UnitInput) (bench : Workbench) :
    ((compiler.ruleLines input.sources bench.numbering).map fun line =>
      (line.rule.name, line.text)) =
        (input.sources.flatMap Source.parts).flatMap Part.namedLines ∧
    ((∃ unit after, compiler.compileUnit input bench = .ok unit after) ↔
      (∀ line ∈ compiler.ruleLines input.sources bench.numbering,
        line.Compiles compiler.resolver) ∧
      ∀ name ∈ Source.headerNames input.sources,
        ¬ compiler.LacksFlag input.sources bench.numbering name) ∧
    (∀ before line rest cause,
      compiler.ruleLines input.sources bench.numbering = before ++ line :: rest →
      (∀ earlier ∈ before, earlier.Compiles compiler.resolver) →
      (line.step compiler.resolver).outcome = .error cause →
      cause.rule = line.rule.name ∧
      (∃ source ∈ input.sources, line.label = source.label ∧
        ∃ i, line.number = i + 1 ∧ (Text.lines source.text)[i]? = some line.text) ∧
      ∃ after logged report,
        compiler.compileUnit input bench = .error cause after ∧
        after.events = bench.events ++ logged ++ [report] ∧ Event.Quiet logged ∧
        report = .lineFailed line.label line.number cause ∧ report.level = .error ∧
        report.line =
          "ERROR " ++ line.label ++ ":" ++ line.number.repr ++ ": " ++ cause.message) ∧
    (∀ before name rest,
      (∀ line ∈ compiler.ruleLines input.sources bench.numbering,
        line.Compiles compiler.resolver) →
      (Source.headerNames input.sources).eraseDups = before ++ name :: rest →
      (∀ earlier ∈ before, ¬ compiler.LacksFlag input.sources bench.numbering earlier) →
      compiler.LacksFlag input.sources bench.numbering name →
      ∃ after logged,
        compiler.compileUnit input bench =
          .error (.operand name "enabled" (.unresolvedSymbol name)) after ∧
        after.events = bench.events ++ logged ∧ Event.Quiet logged) := by
  have hCase := compiler.compileUnit_case input bench
  generalize compiler.compileUnit input bench = result at hCase ⊢
  refine ⟨compiler.namedLines_ruleLines input.sources bench.numbering, ⟨?_, ?_⟩, ?_, ?_⟩
  · rintro ⟨unit, after, rfl⟩
    cases hCase with
    | done hLines hRead hWrite =>
      exact ⟨ruleLines_compile_iff.mp hLines, not_lacksFlag_of_writeOut hRead hWrite⟩
  · rintro ⟨hLines, hFlags⟩
    cases hCase with
    | line hFault => cases (ruleLines_compile_iff.mpr hLines).symm.trans hFault
    | rule _ hRead hWrite =>
      obtain ⟨name, rest, hNames, _, hLacks, _⟩ := exists_lacksFlag_of_writeOut hRead hWrite
      refine absurd hLacks (hFlags name ?_)
      rw [← List.mem_eraseDups, hNames]
      exact List.mem_append_right _ List.mem_cons_self
    | done => exact ⟨_, _, rfl⟩
  · intro before line rest cause hSplit hBefore hLine
    have hFirst := findSome?_fault? hBefore hLine rest
    rw [← hSplit] at hFirst
    have hMem : line ∈ compiler.ruleLines input.sources bench.numbering := by
      rw [hSplit]
      exact List.mem_append_right _ List.mem_cons_self
    refine ⟨Rule.rule_of_compileLine_error hLine, mem_ruleLines hMem, ?_⟩
    cases hCase with
    | line hFault hQuiet =>
      cases hFault.symm.trans hFirst
      exact ⟨_, _, _, rfl, rfl, hQuiet, rfl, rfl, line.line_report cause⟩
    | rule hLines => cases hLines.symm.trans hFirst
    | done hLines => cases hLines.symm.trans hFirst
  · intro before name rest hLines hSplit hBefore hLacks
    cases hCase with
    | line hFault => cases (ruleLines_compile_iff.mpr hLines).symm.trans hFault
    | rule _ hRead hWrite hQuiet =>
      obtain ⟨name', rest', hNames, hEarlier, hLacks', rfl⟩ :=
        exists_lacksFlag_of_writeOut hRead hWrite
      obtain ⟨_, rfl⟩ := eq_of_first (hNames.symm.trans hSplit) hEarlier hBefore hLacks' hLacks
      exact ⟨_, _, rfl, rfl, hQuiet⟩
    | done _ hRead hWrite =>
      refine absurd hLacks (not_lacksFlag_of_writeOut hRead hWrite name ?_)
      rw [← List.mem_eraseDups, hSplit]
      exact List.mem_append_right _ List.mem_cons_self

/-- A line of the second source does not compile, after a rule in the first that lacks its flag: the
unit fails with the line. -/
theorem compileUnit_ok_iff_late_line :
    ∃ compiler sources after logged report,
      compiler =
        ({ resolver := { code? := fun _ _ => some 7, flag? := fun _ => none } } : Compiler) ∧
      sources =
        [⟨"1", "<identifier>a</identifier>\n<autogen>--KeyToKey-- KeyCode::A</autogen>"⟩,
        ⟨"2", "--Nope--\n<identifier>b</identifier>\n<autogen>--Nope-- KeyCode::A</autogen>"⟩] ∧
      compiler.LacksFlag sources {} "a" ∧
      compiler.compileUnit ⟨"u", sources⟩ {} = .error (.unknownOperation "b" "Nope") after ∧
      after.events = logged ++ [report] ∧ Event.Quiet logged ∧ report.level = .error ∧
      report.line = "ERROR 2:3: rule 'b': unknown operation 'Nope'" := by
  obtain ⟨compiler, hCompiler⟩ : ∃ compiler : Compiler, compiler =
      { resolver := { code? := fun _ _ => some 7, flag? := fun _ => none } } :=
    ⟨_, rfl⟩
  obtain ⟨sources, hSources⟩ : ∃ sources : List Source, sources =
      [⟨"1", "<identifier>a</identifier>\n<autogen>--KeyToKey-- KeyCode::A</autogen>"⟩,
      ⟨"2", "--Nope--\n<identifier>b</identifier>\n<autogen>--Nope-- KeyCode::A</autogen>"⟩] :=
    ⟨_, rfl⟩
  have hStatement : ∃ part ∈ compiler.partsOf sources {} "a",
      part.statements compiler .key ≠ [] := by
    subst hCompiler hSources
    decide +kernel
  have hLines : ((compiler.ruleLines sources {}).map fun line =>
      (line.label, line.number, (line.fault? compiler.resolver).map Prod.snd)) =
        [("1", 2, none), ("2", 3, some (.unknownOperation "b" "Nope"))] := by
    subst hCompiler hSources
    decide +kernel
  obtain ⟨first, line, hSplit, hFirst, hLine⟩ := exists_of_map_eq_pair hLines
  simp only [Prod.mk.injEq, Option.map_eq_none_iff, RuleLine.fault?_eq_none_iff] at hFirst
  simp only [Prod.mk.injEq, Option.map_eq_some_iff, Prod.exists, exists_eq_right,
    RuleLine.fault?_eq_some_iff] at hLine
  obtain ⟨hLabel, hNumber, _, rfl, hOutcome⟩ := hLine
  obtain ⟨_, _, after, logged, report, hRun, hEvents, hQuiet, _, hLevel, hReport⟩ :=
    (compiler.compileUnit_ok_iff ⟨"u", sources⟩ {}).2.2.1 [first] line [] _ hSplit
      (by simpa using hFirst.2.2) hOutcome
  have hText : "ERROR " ++ "2" ++ ":" ++ Nat.repr 3 ++ ": " ++
      (CompileError.unknownOperation "b" "Nope").message =
        "ERROR 2:3: rule 'b': unknown operation 'Nope'" := by
    decide +kernel
  rw [hLabel, hNumber, hText] at hReport
  obtain ⟨part, hPart, hSome⟩ := hStatement
  refine ⟨compiler, sources, after, logged, report, hCompiler, hSources,
    ⟨⟨part, hPart, .key, hSome⟩, ?_⟩, hRun, hEvents, hQuiet, hLevel, hReport⟩
  rw [hCompiler]
  exact ⟨by decide, rfl⟩

/-! ## What a failed unit leaves behind -/

/-- What a failed unit has added to the registry: nothing if it fails at a line, else the entries of
the rules before the first one that lacks its flag. -/
def FailureAdds (compiler : Compiler) (sources : List Source) (numbering : Numbering)
    (cause : CompileError) (added : List Registry.Entry) : Prop :=
  (∃ line ∈ compiler.ruleLines sources numbering, ¬ line.Compiles compiler.resolver) ∧
    added = [] ∨
  (∀ line ∈ compiler.ruleLines sources numbering, line.Compiles compiler.resolver) ∧
    ∃ name rest,
      (Source.headerNames sources).eraseDups = added.map (·.name) ++ name :: rest ∧
      (∀ earlier ∈ added.map (·.name), ¬ compiler.LacksFlag sources numbering earlier) ∧
      compiler.LacksFlag sources numbering name ∧ cause = .noFlag name

theorem exists_failureAdds {compiler : Compiler} {input : UnitInput} {bench after : Workbench}
    {cause : CompileError} (hRun : compiler.compileUnit input bench = .error cause after) :
    ∃ added, after.registry.entries = bench.registry.entries ++ added ∧
      compiler.FailureAdds input.sources bench.numbering cause added := by
  have hCase := compiler.compileUnit_case input bench
  rw [hRun] at hCase
  cases hCase with
  | line hFault =>
    refine ⟨[], (List.append_nil _).symm, .inl ⟨?_, rfl⟩⟩
    by_contra hNone
    simp only [not_exists, not_and, not_not] at hNone
    cases (ruleLines_compile_iff.mpr hNone).symm.trans hFault
  | @rule _ reading items _ hLines hRead hWrite =>
    refine ⟨items.map (·.entry), rfl, .inr ⟨ruleLines_compile_iff.mp hLines, ?_⟩⟩
    rw [List.map_map]
    exact exists_lacksFlag_of_writeOut hRead hWrite

/-- **A failed unit can leave entries.** If a unit fails at a line, the registry is what it was. If
it fails because a rule lacks its flag, the rules before that one are in the registry. So a failed
unit leaves the registry as it was exactly if a line does not compile or the first of all rules
lacks its flag. -/
theorem registry_of_failed_compileUnit {compiler : Compiler} {input : UnitInput}
    {bench after : Workbench} {cause : CompileError}
    (hRun : compiler.compileUnit input bench = .error cause after) :
    (∃ added, after.registry.entries = bench.registry.entries ++ added ∧
      compiler.FailureAdds input.sources bench.numbering cause added) ∧
    (after.registry = bench.registry ↔
      (∃ line ∈ compiler.ruleLines input.sources bench.numbering,
        ¬ line.Compiles compiler.resolver) ∨
      ∃ name rest, (Source.headerNames input.sources).eraseDups = name :: rest ∧
        compiler.LacksFlag input.sources bench.numbering name) := by
  obtain ⟨added, hEntries, hAdds⟩ := exists_failureAdds hRun
  have hKept : after.registry = bench.registry ↔ added = [] := by
    rw [← List.self_eq_append_right, ← hEntries, eq_comm]
    exact ⟨congrArg Registry.entries, congrArg Registry.mk⟩
  refine ⟨⟨added, hEntries, hAdds⟩, ?_⟩
  rw [hKept]
  rcases hAdds with ⟨hFails, hNone⟩ | ⟨hLines, name, rest, hNames, hEarlier, hLacks, _⟩
  · exact iff_of_true hNone (.inl hFails)
  · constructor
    · rintro rfl
      exact .inr ⟨name, rest, hNames, hLacks⟩
    · rintro (⟨line, hMem, hFails⟩ | ⟨first, others, hFirst, hFirstLacks⟩)
      · exact absurd (hLines line hMem) hFails
      · have hSplit : [] ++ first :: others = added.map (·.name) ++ name :: rest :=
          hFirst.symm.trans hNames
        have hBefore := (eq_of_first hSplit (by simp) hEarlier hFirstLacks hLacks).1
        exact List.map_eq_nil_iff.mp hBefore.symm

/-- Two rules with a statement each, of which the second lacks its flag: the entry of the first
stays behind. -/
theorem registry_of_failed_compileUnit_second_rule :
    ∃ compiler sources after,
      compiler =
        ({ resolver :=
            { code? := fun _ _ => some 7
              flag? := fun name => if name = "a" then some 0 else none } } : Compiler) ∧
      sources =
        [⟨"1", "<identifier>a</identifier>\n<autogen>--KeyToKey-- KeyCode::A</autogen>\n" ++
          "<identifier>b</identifier>\n<autogen>--KeyToKey-- KeyCode::A</autogen>"⟩] ∧
      compiler.compileUnit ⟨"u", sources⟩ {} = .error (.noFlag "b") after ∧
      after.registry.entries.map (·.name) = ["a"] := by
  obtain ⟨compiler, hCompiler⟩ : ∃ compiler : Compiler, compiler =
      { resolver :=
          { code? := fun _ _ => some 7
            flag? := fun name => if name = "a" then some 0 else none } } :=
    ⟨_, rfl⟩
  obtain ⟨sources, hSources⟩ : ∃ sources : List Source, sources =
      [⟨"1", "<identifier>a</identifier>\n<autogen>--KeyToKey-- KeyCode::A</autogen>\n" ++
        "<identifier>b</identifier>\n<autogen>--KeyToKey-- KeyCode::A</autogen>"⟩] :=
    ⟨_, rfl⟩
  obtain ⟨hError, hLines, hNames, hStatement⟩ :
      (match compiler.compileUnit ⟨"u", sources⟩ {} with
        | .ok _ _ => false
        | .error _ _ => true) = true ∧
      ((compiler.ruleLines sources {}).findSome?
        (RuleLine.fault? compiler.resolver)).isNone = true ∧
      Source.headerNames sources = ["a", "b"] ∧
      ∃ part ∈ compiler.partsOf sources {} "b", part.statements compiler .key ≠ [] := by
    subst hCompiler hSources
    decide +kernel
  have hCompile := ruleLines_compile_iff.mp (Option.isNone_iff_eq_none.mp hLines)
  have hFirst : ¬ compiler.LacksFlag sources {} "a" := by
    rintro ⟨_, _, hNone⟩
    rw [hCompiler] at hNone
    cases hNone
  have hSecond : compiler.LacksFlag sources {} "b" := by
    obtain ⟨part, hPart, hSome⟩ := hStatement
    rw [hCompiler] at hPart hSome ⊢
    exact ⟨⟨part, hPart, .key, hSome⟩, by decide, rfl⟩
  cases hRun : compiler.compileUnit ⟨"u", sources⟩ {} with
  | ok unit after =>
    rw [hRun] at hError
    cases hError
  | error cause after =>
    obtain ⟨⟨added, hEntries, hAdds⟩, _⟩ := registry_of_failed_compileUnit hRun
    rcases hAdds with ⟨⟨line, hMem, hFails⟩, _⟩ | ⟨_, name, rest, hSplit, hEarlier, hLacks, hCause⟩
    · exact absurd (hCompile line hMem) hFails
    · have hAll : ["a"] ++ "b" :: [] = added.map (·.name) ++ name :: rest := by
        rw [← hSplit, hNames]
        decide
      obtain ⟨hBefore, rfl⟩ := eq_of_first hAll (by simpa using hFirst) hEarlier hSecond hLacks
      refine ⟨compiler, sources, after, hCompiler, hSources, hCause ▸ hRun, ?_⟩
      rw [hEntries]
      exact hBefore.symm

/-- A failed unit does not always leave the registry as it was. -/
theorem not_registry_kept :
    ¬ ∀ (compiler : Compiler) (input : UnitInput) (bench after : Workbench) (cause : CompileError),
      compiler.compileUnit input bench = .error cause after → after.registry = bench.registry := by
  intro hKept
  obtain ⟨compiler, input, hEntries⟩ : ∃ (compiler : Compiler) (input : UnitInput),
      (match compiler.compileUnit input {} with
        | .ok _ _ => []
        | .error _ after => after.registry.entries.map (·.name)) = ["a"] := by
    refine ⟨{ resolver :=
        { code? := fun _ _ => some 7, flag? := fun name => if name = "a" then some 0 else none } },
      ⟨"u", [⟨"1",
        "<identifier>a</identifier>\n<autogen>--KeyToKey-- KeyCode::A</autogen>\n" ++
        "<identifier>b</identifier>\n<autogen>--KeyToKey-- KeyCode::A</autogen>"⟩]⟩, ?_⟩
    decide +kernel
  cases hRun : compiler.compileUnit input {} with
  | ok unit after =>
    rw [hRun] at hEntries
    cases hEntries
  | error cause after =>
    simp only [hRun, hKept compiler input {} after cause hRun] at hEntries
    cases hEntries

end Compiler

end KeyRemap
