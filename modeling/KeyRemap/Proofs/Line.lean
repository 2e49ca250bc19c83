import KeyRemap.Rule

/-!
# What a line does to a rule

A line can do six things to a rule: give it a clause, leave it alone, fail for want of an operation,
bring an expression, fail at its operands, or bring a table. None of them looks at what the rule has
gathered so far. So a line does to a rule what it does to a rule without lines, put behind what is
there already.

* `Rule.compileLine_case`: the six cases, each with the step it makes.
* `Rule.compileLine_eq_absorb`: a step is the step of the line alone, absorbed by the rule.
-/

namespace KeyRemap

/-! ## The cases of a line -/

/-- The statement of an operation that takes its parameters as one expression. -/
def Operation.expression? (operation : Operation) (params : String) : Option Statement :=
  match operation with
  | setKeyboardType => some (.assignKeyboardType params)
  | showStatusMessage => some (.returnStatusMessage params)
  | _ => none

/-- The six things a line can do to a rule, each with the step it makes. -/
inductive Rule.LineCase (resolver : Resolver) (line : String) (numbering : Numbering)
    (rule : Rule) : LineStep → Prop
  | clause {guard : Guard} (hOffer : rule.guard.offer line = some guard) :
      LineCase resolver line numbering rule
        { outcome := .ok .guard, rule := { rule with guard }, numbering }
  | plain (hOffer : rule.guard.offer line = none) (hRead : Annotation.read? line = none) :
      LineCase resolver line numbering rule { outcome := .ok .passthrough, rule, numbering }
  | unknown {found : Annotation} (hOffer : rule.guard.offer line = none)
      (hRead : Annotation.read? line = some found)
      (hName : Operation.ofName? found.operation = none) :
      LineCase resolver line numbering rule
        { outcome := .error (.unknownOperation rule.name found.operation), rule, numbering }
  | expression {found : Annotation} {operation : Operation} {statement : Statement}
      (hOffer : rule.guard.offer line = none) (hRead : Annotation.read? line = some found)
      (hName : Operation.ofName? found.operation = some operation)
      (hStatement : operation.expression? found.params = some statement) :
      LineCase resolver line numbering rule
        { outcome := .ok (.operation operation)
          rule := { rule with fragments := rule.fragments.push operation.hook statement }
          numbering }
  | refused {found : Annotation} {operation : Operation} {params : String}
      {after : Numbering} {cause : OperandError}
      (hOffer : rule.guard.offer line = none) (hRead : Annotation.read? line = some found)
      (hName : Operation.ofName? found.operation = some operation)
      (hTable : operation.needsTable = true)
      (hOperands : operation.operands found.params numbering = (params, after))
      (hCause : OperandGroup.classifyParams resolver params = .error cause) :
      LineCase resolver line numbering rule
        { outcome := .error (.operand rule.name operation.name cause), rule, numbering := after }
  | table {found : Annotation} {operation : Operation} {params : String}
      {after : Numbering} {groups : List OperandGroup}
      (hOffer : rule.guard.offer line = none) (hRead : Annotation.read? line = some found)
      (hName : Operation.ofName? found.operation = some operation)
      (hTable : operation.needsTable = true)
      (hOperands : operation.operands found.params numbering = (params, after))
      (hGroups : OperandGroup.classifyParams resolver params = .ok groups) :
      LineCase resolver line numbering rule
        { outcome := .ok (.operation operation)
          rule := rule.addTable after.slots { operation, groups }
          numbering := after.takeSlot }

namespace Operation

theorem operands_slots {operation : Operation} {params operands : String}
    {numbering after : Numbering}
    (h : operation.operands params numbering = (operands, after)) :
    after.slots = numbering.slots := by
  cases operation <;> cases h <;> rfl

theorem needsTable_of_expression?_eq_none {operation : Operation} {params : String}
    (h : operation.expression? params = none) : operation.needsTable = true := by
  cases operation <;> first | rfl | cases h

end Operation

namespace Rule

theorem compileOperation_expression (resolver : Resolver) {operation : Operation}
    {params : String} {statement : Statement} (numbering : Numbering) (rule : Rule)
    (h : operation.expression? params = some statement) :
    rule.compileOperation resolver operation params numbering =
      { outcome := .ok (.operation operation)
        rule := { rule with fragments := rule.fragments.push operation.hook statement }
        numbering } := by
  cases operation <;> cases h <;> rfl

theorem compileOperation_table (resolver : Resolver) {operation : Operation} (params : String)
    (numbering : Numbering) (rule : Rule) (h : operation.needsTable = true) :
    rule.compileOperation resolver operation params numbering =
      rule.compileTable resolver operation params numbering := by
  cases operation <;> first | rfl | cases h

theorem compileLine_case (resolver : Resolver) (line : String) (numbering : Numbering)
    (rule : Rule) :
    LineCase resolver line numbering rule (rule.compileLine resolver line numbering) := by
  unfold compileLine
  cases hOffer : rule.guard.offer line with
  | some guard => exact .clause hOffer
  | none =>
    cases hRead : Annotation.read? line with
    | none => exact .plain hOffer hRead
    | some found =>
      cases hName : Operation.ofName? found.operation with
      | none => simpa only [hName] using LineCase.unknown hOffer hRead hName
      | some operation =>
        simp only [hName]
        cases hStatement : operation.expression? found.params with
        | some statement =>
          rw [compileOperation_expression resolver numbering rule hStatement]
          exact .expression hOffer hRead hName hStatement
        | none =>
          have hTable := Operation.needsTable_of_expression?_eq_none hStatement
          rw [compileOperation_table resolver found.params numbering rule hTable]
          unfold compileTable
          rcases hOperands : operation.operands found.params numbering with ⟨params, after⟩
          dsimp only
          cases hClassify : OperandGroup.classifyParams resolver params with
          | error cause => exact .refused hOffer hRead hName hTable hOperands hClassify
          | ok groups => exact .table hOffer hRead hName hTable hOperands hClassify

end Rule

/-! ## Guards of one style -/

/-- The clause that a line gives to the rules of a style. -/
def GuardStyle.clause? (style : GuardStyle) (line : String) : Option FilterClause :=
  match style with
  | none => Option.none
  | filter => FilterClause.read? line

namespace Guard

/-- The style of a guard, which it keeps for good. -/
def style : Guard → GuardStyle
  | none => .none
  | filter _ => .filter

/-- The guard with more clauses at the end; a guard that takes no lines has no room for them. -/
def extend (guard : Guard) (more : List FilterClause) : Guard :=
  match guard with
  | none => none
  | filter clauses => filter (clauses ++ more)

theorem style_fresh (style : GuardStyle) : style.fresh.style = style := by
  cases style <;> rfl

theorem clauses_fresh (style : GuardStyle) : style.fresh.clauses = [] := by
  cases style <;> rfl

theorem extend_nil (guard : Guard) : guard.extend [] = guard := by
  cases guard with
  | none => rfl
  | filter clauses => simp [extend]

theorem style_extend (guard : Guard) (more : List FilterClause) :
    (guard.extend more).style = guard.style := by
  cases guard <;> rfl

/-- A line is for a guard when its style takes it, whatever the guard has collected. -/
theorem offer_eq (guard : Guard) (line : String) :
    guard.offer line = (guard.style.clause? line).map fun clause => guard.extend [clause] := by
  cases guard <;> rfl

theorem clauses_extend_clause? (guard : Guard) (line : String) :
    (guard.extend (guard.style.clause? line).toList).clauses =
      guard.clauses ++ (guard.style.clause? line).toList := by
  cases guard <;> rfl

theorem extend_clauses_fresh {style : GuardStyle} {line : String} {clause : FilterClause}
    (h : style.clause? line = some clause) :
    (style.fresh.extend [clause]).clauses = [clause] := by
  cases style with
  | none => cases h
  | filter => rfl

end Guard

/-! ## Lines alone -/

namespace Rule

theorem name_compileLine (resolver : Resolver) (line : String) (numbering : Numbering)
    (rule : Rule) : (rule.compileLine resolver line numbering).rule.name = rule.name := by
  have hCase := compileLine_case resolver line numbering rule
  generalize rule.compileLine resolver line numbering = step at hCase ⊢
  cases hCase <;> rfl

/-- A line leaves the guard with its clause, whatever else it does. -/
theorem guard_compileLine (resolver : Resolver) (line : String) (numbering : Numbering)
    (rule : Rule) :
    (rule.compileLine resolver line numbering).rule.guard =
      rule.guard.extend (rule.guard.style.clause? line).toList := by
  have hCase := compileLine_case resolver line numbering rule
  have hOffer := rule.guard.offer_eq line
  generalize rule.compileLine resolver line numbering = step at hCase ⊢
  cases hClause : rule.guard.style.clause? line with
  | some clause =>
    rw [hClause, Option.map_some] at hOffer
    cases hCase with
    | clause h =>
      cases hOffer.symm.trans h
      rfl
    | _ h => cases hOffer.symm.trans h
  | none =>
    rw [hClause, Option.map_none] at hOffer
    cases hCase with
    | clause h => cases hOffer.symm.trans h
    | _ => exact rule.guard.extend_nil.symm

/-- The step that a line makes in a rule without lines. -/
def lineAlone (resolver : Resolver) (name : String) (style : GuardStyle) (line : String)
    (numbering : Numbering) : LineStep :=
  (new name style.fresh).compileLine resolver line numbering

/-- The rule with clauses, statements and tables of another one behind its own. -/
def absorb (rule other : Rule) : Rule :=
  { rule with
    guard := rule.guard.extend other.guard.clauses
    fragments := rule.fragments.append other.fragments
    tableCount := rule.tableCount + other.tableCount
    slotCount := max rule.slotCount other.slotCount }

/-- The step of a line alone, taken in a rule that has gathered something already. -/
def absorbStep (rule : Rule) (step : LineStep) : LineStep :=
  { step with rule := rule.absorb step.rule }

theorem absorb_new (rule : Rule) (name : String) (style : GuardStyle) :
    rule.absorb (new name style.fresh) = rule := by
  simp [absorb, new, Guard.clauses_fresh, Guard.extend_nil, Fragments.append_empty]

theorem absorb_push (rule other : Rule) (hook : Hook) (statement : Statement) :
    rule.absorb { other with fragments := other.fragments.push hook statement } =
      { rule.absorb other with
        fragments := (rule.absorb other).fragments.push hook statement } := by
  simp [absorb, Fragments.append_push]

theorem absorb_addTable (rule other : Rule) (slot : Nat) (table : OperandTable) :
    rule.absorb (other.addTable slot table) = (rule.absorb other).addTable slot table := by
  simp [absorb, addTable, Fragments.append_push, Fragments.append_pushAll, Nat.add_assoc,
    Nat.max_assoc]

/-- A rule compiles an operation as any rule does that it can absorb without a change. -/
theorem compileOperation_eq_absorb (resolver : Resolver) (operation : Operation)
    (params : String) (numbering : Numbering) {rule blank : Rule}
    (hName : blank.name = rule.name) (hBlank : rule.absorb blank = rule) :
    rule.compileOperation resolver operation params numbering =
      rule.absorbStep (blank.compileOperation resolver operation params numbering) := by
  cases hStatement : operation.expression? params with
  | some statement =>
    simp only [compileOperation_expression resolver numbering _ hStatement, absorbStep]
    rw [absorb_push, hBlank]
  | none =>
    have hTable := Operation.needsTable_of_expression?_eq_none hStatement
    simp only [compileOperation_table resolver _ numbering _ hTable, compileTable]
    split
    · rw [absorbStep, hBlank, hName]
    · rw [absorbStep, absorb_addTable, hBlank]

/-- What a line does to a rule does not depend on what the rule has gathered: it is the step of the
line alone, absorbed by the rule. -/
theorem compileLine_eq_absorb (resolver : Resolver) (line : String) (numbering : Numbering)
    (rule : Rule) :
    rule.compileLine resolver line numbering =
      rule.absorbStep (lineAlone resolver rule.name rule.guard.style line numbering) := by
  have hName : (new rule.name rule.guard.style.fresh).name = rule.name := rfl
  have hGuard : (new rule.name rule.guard.style.fresh).guard = rule.guard.style.fresh := rfl
  have hBlank := absorb_new rule rule.name rule.guard.style
  simp only [lineAlone, compileLine, Guard.offer_eq, hGuard, Guard.style_fresh]
  cases hClause : rule.guard.style.clause? line with
  | some clause =>
    simp [absorbStep, absorb, new, Guard.extend_clauses_fresh hClause, Fragments.append_empty]
  | none =>
    cases Annotation.read? line with
    | none => simp only [Option.map_none, absorbStep, hBlank]
    | some found =>
      cases hOperation : Operation.ofName? found.operation with
      | none => simp only [Option.map_none, hOperation, absorbStep, hBlank, hName]
      | some operation =>
        simp only [Option.map_none, hOperation]
        exact compileOperation_eq_absorb resolver operation found.params numbering hName hBlank

end Rule

end KeyRemap
