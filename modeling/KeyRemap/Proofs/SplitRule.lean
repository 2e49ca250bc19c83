import KeyRemap.Proofs.Dispatch
import KeyRemap.Proofs.Part

/-!
# Rules in several parts

A rule can be defined in several parts, in one source or in many, with other rules between them.
Each part is closed with its own filters before it is merged, so a collected rule is a list of
blocks, one for each part that has something to say at a hook.

* `Reading.names_collect`, `Reading.statementsOf_collect`: what collecting does to the names of the
  rules and to the statements of one name.
* `Compiler.compilePart_spec`: what a part compiles to, in terms of its lines.
* `Compiler.statementsOf_collectParts`: the statements of a name, in terms of its parts.
* `Compiler.get_readSources`: every collected rule keeps its parts and their guards apart.
-/

namespace KeyRemap

/-! ## Collecting rules -/

namespace Reading

/-- The statements at a hook of the rules of a given name. -/
def statementsOf (rules : List Rule) (name : String) (hook : Hook) : List Statement :=
  (rules.filter fun rule => rule.name = name).flatMap fun rule => rule.fragments.get hook

theorem names_collectInto (rule : Rule) (rules : List Rule) :
    (collectInto rule rules).1.map Rule.name =
      if rule.name ∈ rules.map Rule.name then rules.map Rule.name
      else rules.map Rule.name ++ [rule.name] := by
  induction rules with
  | nil => rfl
  | cons first rest ih =>
    by_cases h : first.name = rule.name
    · simp [collectInto, h, Rule.merge]
    · simp only [collectInto, h, if_false, List.map_cons, ih, List.mem_cons, Ne.symm h, false_or]
      split <;> rfl

theorem statementsOf_eq_nil {rules : List Rule} {name : String} (hook : Hook)
    (h : name ∉ rules.map Rule.name) : statementsOf rules name hook = [] := by
  have hFilter : (rules.filter fun rule => rule.name = name) = [] := by
    apply List.filter_eq_nil_iff.mpr
    intro rule hRule hName
    exact h (List.mem_map.mpr ⟨rule, hRule, by simpa using hName⟩)
  rw [statementsOf, hFilter, List.flatMap_nil]

theorem statementsOf_cons (rule : Rule) (rules : List Rule) (name : String) (hook : Hook) :
    statementsOf (rule :: rules) name hook =
      (if rule.name = name then rule.fragments.get hook else []) ++
        statementsOf rules name hook := by
  by_cases h : rule.name = name <;> simp [statementsOf, h]

/-- A collected rule puts its statements behind those of its name and leaves the other names
alone. -/
theorem statementsOf_collectInto (rule : Rule) {rules : List Rule}
    (hNodup : (rules.map Rule.name).Nodup) (name : String) (hook : Hook) :
    statementsOf (collectInto rule rules).1 name hook =
      statementsOf rules name hook ++
        if rule.name = name then rule.fragments.get hook else [] := by
  induction rules with
  | nil => simp [collectInto, statementsOf_cons, statementsOf_eq_nil]
  | cons first rest ih =>
    obtain ⟨hFirst, hRest⟩ := List.nodup_cons.mp hNodup
    by_cases h : first.name = rule.name
    · have hMerge : (first.merge rule).name = first.name := rfl
      simp only [collectInto, h, if_true, statementsOf_cons, hMerge]
      split
      · rename_i hName
        subst hName
        rw [statementsOf_eq_nil hook (h ▸ hFirst)]
        simp [Rule.merge]
      · simp
    · simp only [collectInto, h, if_false, statementsOf_cons, ih hRest, List.append_assoc]

/-- Where no name occurs twice, the statements of a rule's name are those of the rule. -/
theorem statementsOf_of_mem {rules : List Rule} (hNodup : (rules.map Rule.name).Nodup)
    {rule : Rule} (hRule : rule ∈ rules) (hook : Hook) :
    statementsOf rules rule.name hook = rule.fragments.get hook := by
  induction rules with
  | nil => cases hRule
  | cons first rest ih =>
    obtain ⟨hFirst, hRest⟩ := List.nodup_cons.mp hNodup
    rw [statementsOf_cons]
    rcases List.mem_cons.mp hRule with rfl | hRule
    · rw [statementsOf_eq_nil hook hFirst]
      simp
    · have hNe : first.name ≠ rule.name := by
        intro h
        exact hFirst (h ▸ List.mem_map.mpr ⟨rule, hRule, rfl⟩)
      simpa [hNe] using ih hRest hRule

theorem name_finalize (rule : Rule) : rule.finalize.name = rule.name := by
  unfold Rule.finalize
  split <;> rfl

theorem names_collect (rules : List Rule) (part : Rule) :
    (collect rules part).map Rule.name =
      if part.name ∈ rules.map Rule.name then rules.map Rule.name
      else rules.map Rule.name ++ [part.name] := by
  rw [collect, names_collectInto, name_finalize]

theorem nodup_names_collect {rules : List Rule} (h : (rules.map Rule.name).Nodup) (part : Rule) :
    ((collect rules part).map Rule.name).Nodup := by
  rw [names_collect]
  split
  · exact h
  · rename_i hName
    rw [List.nodup_append]
    refine ⟨h, by simp, ?_⟩
    rintro name hMem _ hPart rfl
    exact hName (List.mem_singleton.mp hPart ▸ hMem)

theorem statementsOf_collect {rules : List Rule} (hNodup : (rules.map Rule.name).Nodup)
    (part : Rule) (name : String) (hook : Hook) :
    statementsOf (collect rules part) name hook =
      statementsOf rules name hook ++
        if part.name = name then part.finalize.fragments.get hook else [] := by
  rw [collect, statementsOf_collectInto _ hNodup, name_finalize]

end Reading

/-! ## What a part compiles to -/

namespace Compiler

/-- The lines of a part, each compiled alone to a rule of its own, and the numbering after them. -/
def lineRules (compiler : Compiler) (name : String) :
    List String → Numbering → List Rule × Numbering
  | [], numbering => ([], numbering)
  | line :: lines, numbering =>
    let step := Rule.lineAlone compiler.resolver name compiler.guards line numbering
    let (rules, numbering) := compiler.lineRules name lines step.numbering
    (step.rule :: rules, numbering)

end Compiler

/-- A part together with the numbering at its header. -/
structure PlacedPart extends Part where
  numbering : Numbering
  deriving DecidableEq, Repr

namespace PlacedPart

/-- The statements that the lines of a part bring to a hook, line after line. -/
def statements (compiler : Compiler) (part : PlacedPart) (hook : Hook) : List Statement :=
  (compiler.lineRules part.name part.lines part.numbering).1.flatMap fun rule =>
    rule.fragments.get hook

/-- The clauses of all filter lines of a part. -/
def clauses (compiler : Compiler) (part : PlacedPart) : List FilterClause :=
  part.lines.filterMap compiler.guards.clause?

/-- The code that checks the filters of a part. -/
def guardCode (compiler : Compiler) (part : PlacedPart) : String :=
  String.join ((part.clauses compiler).map FilterClause.code)

/-- What a part brings to a hook when it is closed. -/
def closed (compiler : Compiler) (part : PlacedPart) (hook : Hook) : List Statement :=
  if hook.isFirstMatch && !(part.statements compiler hook).isEmpty then
    [.firstMatch (part.guardCode compiler) (part.statements compiler hook)]
  else part.statements compiler hook

end PlacedPart

namespace Compiler

/-- Parts with the numbering that has been reached at each of them. -/
def place (compiler : Compiler) : List Part → Numbering → List PlacedPart
  | [], _ => []
  | part :: parts, numbering =>
    { part with numbering } ::
      compiler.place parts (compiler.lineRules part.name part.lines numbering).2

theorem mem_lineRules {compiler : Compiler} {name : String} {lines : List String}
    {numbering : Numbering} {rule : Rule}
    (h : rule ∈ (compiler.lineRules name lines numbering).1) :
    ∃ line numbering,
      rule = (Rule.lineAlone compiler.resolver name compiler.guards line numbering).rule := by
  induction lines generalizing numbering with
  | nil => cases h
  | cons line lines ih =>
    rcases List.mem_cons.mp h with rfl | h
    · exact ⟨line, numbering, rfl⟩
    · exact ih h

/-- Lines bring to a rule, one after the other, what each of them brings alone. -/
theorem compileLines_spec {compiler : Compiler} {lines : List String} {rule rule' : Rule}
    {numbering after : Numbering} (hStyle : rule.guard.style = compiler.guards)
    (hRun : rule.compileLines compiler.resolver lines numbering = .ok (rule', after)) :
    rule'.name = rule.name ∧ rule'.finalized = rule.finalized ∧
    rule'.guard.clauses = rule.guard.clauses ++ lines.filterMap compiler.guards.clause? ∧
    (∀ hook, rule'.fragments.get hook = rule.fragments.get hook ++
      (compiler.lineRules rule.name lines numbering).1.flatMap fun rule =>
        rule.fragments.get hook) ∧
    after = (compiler.lineRules rule.name lines numbering).2 := by
  induction lines generalizing rule numbering with
  | nil =>
    cases hRun
    simp [lineRules]
  | cons line lines ih =>
    have hGuard := rule.guard_compileLine compiler.resolver line numbering
    simp only [Rule.compileLines] at hRun
    rw [Rule.compileLine_eq_absorb, hStyle] at hRun hGuard
    simp only [lineRules]
    generalize Rule.lineAlone compiler.resolver rule.name compiler.guards line numbering = step
      at hRun hGuard ⊢
    simp only [Rule.absorbStep] at hRun hGuard
    cases hOutcome : step.outcome with
    | error cause =>
      rw [hOutcome] at hRun
      cases hRun
    | ok outcome =>
      rw [hOutcome] at hRun
      have hNext : (rule.absorb step.rule).guard.style = compiler.guards := by
        rw [← hStyle]
        exact Guard.style_extend _ _
      obtain ⟨hName, hFinalized, hClauses, hGet, hAfter⟩ := ih hNext hRun
      refine ⟨hName, hFinalized, ?_, ?_, hAfter⟩
      · rw [hClauses, hGuard, ← hStyle, Guard.clauses_extend_clause?, List.append_assoc,
          List.filterMap_cons]
        cases rule.guard.style.clause? line <;> rfl
      · intro hook
        rw [hGet hook, List.flatMap_cons, ← List.append_assoc]
        exact congrArg (· ++ _) (Fragments.get_append _ _ hook)

/-- What a part compiles to, in terms of its lines. -/
theorem compilePart_spec {compiler : Compiler} {part : Part} {numbering after : Numbering}
    {rule : Rule} (hRun : compiler.compilePart part numbering = .ok (rule, after)) :
    rule.name = part.name ∧ after = (compiler.lineRules part.name part.lines numbering).2 ∧
    ∀ hook, rule.finalize.fragments.get hook =
      PlacedPart.closed compiler { part with numbering } hook := by
  obtain ⟨hName, hFinalized, hClauses, hGet, hAfter⟩ :=
    compileLines_spec (Guard.style_fresh compiler.guards) hRun
  refine ⟨hName, hAfter, ?_⟩
  intro hook
  have hCode : rule.guard.code = PlacedPart.guardCode compiler { part with numbering } := by
    rw [Guard.code, hClauses]
    simp [Rule.new, Guard.clauses_fresh, PlacedPart.guardCode, PlacedPart.clauses]
  have hStatements :
      rule.fragments.get hook = PlacedPart.statements compiler { part with numbering } hook := by
    rw [hGet hook]
    simp [Rule.new, PlacedPart.statements]
  have hOpen : rule.finalized = false := hFinalized
  rw [PlacedPart.closed, ← hStatements, ← hCode]
  simp [Rule.finalize, hOpen]

/-! ## What the parts of a rule collect to -/

theorem nodup_names_collectParts {compiler : Compiler} {parts : List Part}
    {rules rules' : List Rule} {numbering after : Numbering}
    (hNodup : (rules.map Rule.name).Nodup)
    (hRun : compiler.collectParts parts rules numbering = .ok (rules', after)) :
    (rules'.map Rule.name).Nodup :=
  collectParts_induction (P := fun rules _ => (rules.map Rule.name).Nodup)
    (fun h _ => Reading.nodup_names_collect h _) hNodup hRun

/-- Rules are collected in the order in which their names first appear. -/
theorem names_collectParts {compiler : Compiler} {parts : List Part} {rules rules' : List Rule}
    {numbering after : Numbering} {seen : List String}
    (hNames : rules.map Rule.name = seen.eraseDups)
    (hRun : compiler.collectParts parts rules numbering = .ok (rules', after)) :
    rules'.map Rule.name = (seen ++ parts.map Part.name).eraseDups := by
  induction parts generalizing rules numbering seen with
  | nil =>
    cases hRun
    simpa using hNames
  | cons part parts ih =>
    obtain ⟨rule, middle, hPart, hRest⟩ := exists_of_collectParts_cons hRun
    have hNext : (Reading.collect rules rule).map Rule.name =
        (seen ++ [part.name]).eraseDups := by
      rw [Reading.names_collect, (compilePart_spec hPart).1, hNames, List.eraseDups_append]
      by_cases hSeen : part.name ∈ seen <;> simp [hSeen, List.removeAll, List.eraseDups_cons]
    have hNames' := ih hNext hRest
    rwa [List.append_assoc] at hNames'

/-- The statements of a name are what its parts bring, one part after the other. -/
theorem statementsOf_collectParts {compiler : Compiler} {parts : List Part}
    {rules rules' : List Rule} {numbering after : Numbering}
    (hNodup : (rules.map Rule.name).Nodup)
    (hRun : compiler.collectParts parts rules numbering = .ok (rules', after))
    (name : String) (hook : Hook) :
    Reading.statementsOf rules' name hook = Reading.statementsOf rules name hook ++
      ((compiler.place parts numbering).filter fun part => part.name = name).flatMap fun part =>
        part.closed compiler hook := by
  induction parts generalizing rules numbering with
  | nil =>
    cases hRun
    simp [place]
  | cons part parts ih =>
    obtain ⟨rule, middle, hPart, hRest⟩ := exists_of_collectParts_cons hRun
    obtain ⟨hName, hAfter, hClosed⟩ := compilePart_spec hPart
    rw [ih (Reading.nodup_names_collect hNodup _) hRest, Reading.statementsOf_collect hNodup,
      hName, hClosed hook, hAfter]
    by_cases h : part.name = name <;> simp [place, h]

theorem map_toPart_place (compiler : Compiler) (parts : List Part) (numbering : Numbering) :
    (compiler.place parts numbering).map PlacedPart.toPart = parts := by
  induction parts generalizing numbering with
  | nil => rfl
  | cons part parts ih => simp [place, ih]

/-- The parts of one rule among some sources, in the order in which they stand there. -/
def partsOf (compiler : Compiler) (sources : List Source) (numbering : Numbering)
    (name : String) : List PlacedPart :=
  (compiler.place (sources.flatMap Source.parts) numbering).filter fun part => part.name = name

theorem mem_partsOf {compiler : Compiler} {sources : List Source} {numbering : Numbering}
    {name : String} {part : PlacedPart} (h : part ∈ compiler.partsOf sources numbering name) :
    part.toPart ∈ sources.flatMap Source.parts ∧ part.name = name := by
  obtain ⟨hMem, hName⟩ := List.mem_filter.mp h
  rw [← compiler.map_toPart_place (sources.flatMap Source.parts) numbering]
  exact ⟨List.mem_map_of_mem hMem, by simpa using hName⟩

theorem partsOf_ne_nil_iff (compiler : Compiler) (sources : List Source) (numbering : Numbering)
    (name : String) :
    compiler.partsOf sources numbering name ≠ [] ↔
      name ∈ (sources.flatMap Source.parts).map Part.name := by
  rw [← compiler.map_toPart_place (sources.flatMap Source.parts) numbering, List.map_map,
    List.mem_map, partsOf, Ne, List.filter_eq_nil_iff]
  simp

end Compiler

namespace PlacedPart

theorem isBlock_statements {compiler : Compiler} {part : PlacedPart} {hook : Hook}
    {statement : Statement} (h : statement ∈ part.statements compiler hook) :
    statement.isBlock = false := by
  obtain ⟨rule, hRule, hStatement⟩ := List.mem_flatMap.mp h
  obtain ⟨line, numbering, rfl⟩ := Compiler.mem_lineRules hRule
  exact Rule.isBlock_lineAlone hStatement

theorem isFirstMatch_of_remap_mem {compiler : Compiler} {part : PlacedPart} {hook : Hook}
    {slot : Nat} (h : .remap slot ∈ part.statements compiler hook) :
    hook.isFirstMatch = true := by
  obtain ⟨rule, hRule, hStatement⟩ := List.mem_flatMap.mp h
  obtain ⟨line, numbering, rfl⟩ := Compiler.mem_lineRules hRule
  exact (Rule.Reachable.lineAlone ..).inStep.isFirstMatch_of_remap_mem hStatement

/-- At a first-match hook, parts bring one block each, or nothing. -/
theorem flatMap_closed_of_isFirstMatch (compiler : Compiler) (parts : List PlacedPart)
    {hook : Hook} (h : hook.isFirstMatch = true) :
    (parts.flatMap fun part => part.closed compiler hook) =
      (parts.filter fun part => !(part.statements compiler hook).isEmpty).map fun part =>
        .firstMatch (part.guardCode compiler) (part.statements compiler hook) := by
  induction parts with
  | nil => rfl
  | cons part parts ih =>
    rw [List.flatMap_cons, ih, closed, h, Bool.true_and]
    cases hEmpty : (part.statements compiler hook).isEmpty with
    | true => simp [List.isEmpty_iff.mp hEmpty]
    | false => simp [hEmpty]

theorem closed_of_not_isFirstMatch (compiler : Compiler) (part : PlacedPart) {hook : Hook}
    (h : hook.isFirstMatch = false) :
    part.closed compiler hook = part.statements compiler hook := by
  simp [closed, h]

end PlacedPart

namespace Compiler

theorem nodup_names_readSources {compiler : Compiler} {sources : List Source}
    {numbering : Numbering} {reading : Reading}
    (hRun : compiler.readSources sources { numbering } = .ok () reading) :
    (reading.rules.map Rule.name).Nodup := by
  have hStart : (([] : List Rule).map Rule.name).Nodup := List.nodup_nil
  exact nodup_names_collectParts hStart (collectParts_of_readSources hRun)

/-- The rules of sources are in the order in which their names first appear. -/
theorem names_readSources {compiler : Compiler} {sources : List Source} {numbering : Numbering}
    {reading : Reading} (hRun : compiler.readSources sources { numbering } = .ok () reading) :
    reading.rules.map Rule.name = ((sources.flatMap Source.parts).map Part.name).eraseDups := by
  have hStart : ([] : List Rule).map Rule.name = ([] : List String).eraseDups := rfl
  exact names_collectParts hStart (collectParts_of_readSources hRun)

/-- A collected rule holds at a hook what its parts bring when they are closed. -/
theorem get_eq_flatMap_closed {compiler : Compiler} {sources : List Source}
    {numbering : Numbering} {reading : Reading}
    (hRun : compiler.readSources sources { numbering } = .ok () reading)
    {rule : Rule} (hRule : rule ∈ reading.rules) (hook : Hook) :
    rule.fragments.get hook =
      (compiler.partsOf sources numbering rule.name).flatMap fun part =>
        part.closed compiler hook := by
  have hStart : (([] : List Rule).map Rule.name).Nodup := List.nodup_nil
  rw [← Reading.statementsOf_of_mem (nodup_names_readSources hRun) hRule,
    statementsOf_collectParts hStart (collectParts_of_readSources hRun)]
  rfl

/-- **Parts keep their guards.** Of the rules that sources define there is one for each name that
has a part. At a first-match hook it holds one block for each of its parts that has statements
there, in the order of the parts, with all filters of that part and no other before the statements
of that part and no other; at any other hook it holds the statements of its parts. Blocks are not
nested, and nothing that leaves a block stands outside of one. -/
theorem get_readSources {compiler : Compiler} {sources : List Source} {numbering : Numbering}
    {reading : Reading} (hRun : compiler.readSources sources { numbering } = .ok () reading)
    (name : String) :
    (reading.rules.map Rule.name).Nodup ∧
    (compiler.partsOf sources numbering name ≠ [] ↔ ∃ rule ∈ reading.rules, rule.name = name) ∧
    (∀ part ∈ compiler.partsOf sources numbering name, ∀ hook,
      ∀ statement ∈ part.statements compiler hook, statement.isBlock = false) ∧
    ∀ rule ∈ reading.rules, rule.name = name →
      (∀ hook, hook.isFirstMatch = true → rule.fragments.get hook =
        ((compiler.partsOf sources numbering name).filter fun part =>
          !(part.statements compiler hook).isEmpty).map fun part =>
            .firstMatch (part.guardCode compiler) (part.statements compiler hook)) ∧
      (∀ hook, hook.isFirstMatch = false → rule.fragments.get hook =
        (compiler.partsOf sources numbering name).flatMap fun part =>
          part.statements compiler hook) ∧
      ∀ hook slot, .remap slot ∉ rule.fragments.get hook := by
  refine ⟨nodup_names_readSources hRun, ?_, ?_, ?_⟩
  · rw [partsOf_ne_nil_iff, ← List.mem_eraseDups, ← names_readSources hRun]
    simp
  · intro part _ hook statement hStatement
    exact PlacedPart.isBlock_statements hStatement
  · rintro rule hRule rfl
    have hFirst : ∀ hook, hook.isFirstMatch = true → rule.fragments.get hook =
        ((compiler.partsOf sources numbering rule.name).filter fun part =>
          !(part.statements compiler hook).isEmpty).map fun part =>
            .firstMatch (part.guardCode compiler) (part.statements compiler hook) := by
      intro hook hHook
      rw [get_eq_flatMap_closed hRun hRule, PlacedPart.flatMap_closed_of_isFirstMatch _ _ hHook]
    have hOther : ∀ hook, hook.isFirstMatch = false → rule.fragments.get hook =
        (compiler.partsOf sources numbering rule.name).flatMap fun part =>
          part.statements compiler hook := by
      intro hook hHook
      rw [get_eq_flatMap_closed hRun hRule]
      simp only [PlacedPart.closed_of_not_isFirstMatch compiler _ hHook]
    refine ⟨hFirst, hOther, ?_⟩
    intro hook slot hMem
    cases hHook : hook.isFirstMatch with
    | true =>
      rw [hFirst hook hHook] at hMem
      obtain ⟨_, _, hBlock⟩ := List.mem_map.mp hMem
      cases hBlock
    | false =>
      rw [hOther hook hHook] at hMem
      obtain ⟨_, _, hStatement⟩ := List.mem_flatMap.mp hMem
      rw [PlacedPart.isFirstMatch_of_remap_mem hStatement] at hHook
      cases hHook

/-- A rule in two sources: the filter of the first part, which stands behind the operation, is for
the first part only. -/
theorem get_readSources_of_two_parts :
    ∃ reading rule guard,
      guard =
        "\x7b\n  const unsigned int filter[] = \x7b " ++
          "static_cast<unsigned int>(BRIDGE_FILTERTYPE_APPLICATION_ONLY)," ++
          "ApplicationType::T \x7d;\n" ++
          "  if (RemapFilter::isblocked(filter, sizeof(filter) / sizeof(filter[0]))) break;\n" ++
          "\x7d\n" ∧
      readSources { resolver := .constant 7 }
        [⟨"a", "<identifier>r</identifier>\n" ++
            "<autogen>--KeyToKey-- KeyCode::A</autogen>\n<only>T</only>"⟩,
          ⟨"b", "<identifier>r</identifier>\n<autogen>--KeyToKey-- KeyCode::B</autogen>"⟩]
        { numbering := {} } = .ok () reading ∧
      rule ∈ reading.rules ∧ rule.name = "r" ∧
      rule.fragments.get .key =
        [.firstMatch guard [.remap 0], .firstMatch "" [.remap 1]] := by
  obtain ⟨guard, hGuard⟩ : ∃ guard : String, guard =
      "\x7b\n  const unsigned int filter[] = \x7b " ++
        "static_cast<unsigned int>(BRIDGE_FILTERTYPE_APPLICATION_ONLY)," ++
        "ApplicationType::T \x7d;\n" ++
        "  if (RemapFilter::isblocked(filter, sizeof(filter) / sizeof(filter[0]))) break;\n" ++
        "\x7d\n" :=
    ⟨_, rfl⟩
  generalize hCompiler : ({ resolver := .constant 7 } : Compiler) = compiler
  generalize hSources : ([⟨"a", "<identifier>r</identifier>\n" ++
        "<autogen>--KeyToKey-- KeyCode::A</autogen>\n<only>T</only>"⟩,
      ⟨"b", "<identifier>r</identifier>\n<autogen>--KeyToKey-- KeyCode::B</autogen>"⟩] :
    List Source) = sources
  obtain ⟨hOk, hParts, hKey⟩ :
      (Reading.outcome (compiler.readSources sources { numbering := {} })).isOk = true ∧
      compiler.partsOf sources {} "r" ≠ [] ∧
      ((compiler.partsOf sources {} "r").filter fun part =>
        !(part.statements compiler .key).isEmpty).map (fun part =>
          Statement.firstMatch (part.guardCode compiler) (part.statements compiler .key)) =
        [.firstMatch guard [.remap 0], .firstMatch "" [.remap 1]] := by
    subst hCompiler hSources hGuard
    decide +kernel
  cases hRun : compiler.readSources sources { numbering := {} } with
  | error cause reading =>
    rw [hRun] at hOk
    cases hOk
  | ok _ reading =>
    obtain ⟨_, hExists, _, hGet⟩ := get_readSources hRun "r"
    obtain ⟨rule, hRule, hName⟩ := hExists.mp hParts
    refine ⟨reading, rule, guard, hGuard, rfl, hRule, hName, ?_⟩
    rw [(hGet rule hRule hName).1 .key rfl, hKey]

end Compiler

end KeyRemap
