import KeyRemap.Proofs.Merging
import KeyRemap.Proofs.Names
import KeyRemap.Proofs.Slots

/-!
# Lines that fail

A line that fails leaves its rule as it was and takes no slot. All that it can take is one suffix,
and it does so exactly if it asks for simultaneous presses. So the tables that come later are set up
in the slots that are next without the line as well. Only a suffix makes a difference: simultaneous
presses that come later look for another pseudo key, which may be missing, and then the slots that
follow are others.

* `Rule.slots_compileLine`, `Rule.slots_takeLines`: one line takes the next slot or none, and so
  lines take as many slots as they bring tables, failing ones among them or not.
* `Rule.takeLines_suffixes`: lines that ask for no simultaneous presses do not look at the suffixes.
* `Rule.compileLine_of_error`: what a line that fails leaves behind.
-/

namespace KeyRemap

/-! ## The suffix that an operation takes -/

namespace Operation

/-- The operands of simultaneous presses take a suffix, those of other operations take nothing. -/
theorem snd_operands (operation : Operation) (params : String) (numbering : Numbering) :
    (operation.operands params numbering).2 = { numbering with
      suffixes := numbering.suffixes + if operation = simultaneousKeyPresses then 1 else 0 } := by
  cases operation <;> rfl

theorem operands_of_ne {operation : Operation} (h : operation ≠ simultaneousKeyPresses)
    (params : String) (numbering : Numbering) :
    operation.operands params numbering = (params, numbering) := by
  cases operation <;> first | rfl | exact absurd rfl h

end Operation

namespace Rule

/-! ## The slots that lines take -/

/-- Whether a line has brought a table. -/
def bringsTable : Except CompileError LineOutcome → Bool
  | .ok (.operation operation) => operation.needsTable
  | _ => false

/-- How many lines have brought a table. -/
def tablesBrought (outcomes : List (Except CompileError LineOutcome)) : Nat :=
  outcomes.countP bringsTable

theorem tablesBrought_cons (outcome : Except CompileError LineOutcome)
    (outcomes : List (Except CompileError LineOutcome)) :
    tablesBrought (outcome :: outcomes) = tablesBrought [outcome] + tablesBrought outcomes := by
  rw [tablesBrought, tablesBrought, tablesBrought, ← List.countP_append, List.singleton_append]

/-- A line that brings a table takes a slot, and no other line takes one. -/
theorem slots_compileLine (resolver : Resolver) (line : String) (numbering : Numbering)
    (rule : Rule) :
    (rule.compileLine resolver line numbering).numbering.slots =
      numbering.slots + tablesBrought [(rule.compileLine resolver line numbering).outcome] := by
  have hCase := compileLine_case resolver line numbering rule
  generalize rule.compileLine resolver line numbering = step at hCase ⊢
  cases hCase with
  | clause | plain | unknown => rfl
  | @expression _ operation _ _ _ _ hStatement =>
    cases operation <;> first | rfl | cases hStatement
  | refused _ _ _ _ hOperands => exact Operation.operands_slots hOperands
  | @table _ operation _ _ _ _ _ _ hTable hOperands =>
    have hOne : tablesBrought [.ok (.operation operation)] = 1 := by
      simp [tablesBrought, bringsTable, hTable]
    rw [hOne, Numbering.takeSlot, Operation.operands_slots hOperands]

/-- Lines take as many slots as they bring tables, whatever lines fail in between. -/
theorem slots_takeLines (resolver : Resolver) (lines : List String) (numbering : Numbering)
    (rule : Rule) :
    (rule.takeLines resolver lines numbering).numbering.slots =
      numbering.slots + tablesBrought (rule.takeLines resolver lines numbering).outcomes := by
  induction lines generalizing rule numbering with
  | nil => rfl
  | cons line lines ih =>
    simp only [takeLines]
    rw [tablesBrought_cons, ih, slots_compileLine, Nat.add_assoc]

/-- The table that a line brings is set up in the slot that is next. -/
theorem tableSlots_of_bringsTable {resolver : Resolver} {line : String} {numbering : Numbering}
    {rule : Rule}
    (h : bringsTable (rule.compileLine resolver line numbering).outcome = true) :
    (rule.compileLine resolver line numbering).rule.tableSlots =
      rule.tableSlots ++ [numbering.slots] := by
  obtain ⟨taken, hTables, hRange⟩ := takesSlots_compileLine resolver line numbering rule
  have hOne : tablesBrought [(rule.compileLine resolver line numbering).outcome] = 1 := by
    simp [tablesBrought, h]
  rw [slots_compileLine, hOne, List.range_succ, List.append_cancel_left_eq] at hRange
  rw [hTables, hRange]

/-! ## Lines that do not look at the suffixes -/

/-- The annotation of a line asks for simultaneous presses. -/
def AsksForChord (line : String) : Prop :=
  ∃ found : Annotation, Annotation.read? line = some found ∧
    found.operation = "SimultaneousKeyPresses"

theorem compileOperation_suffixes (resolver : Resolver) {operation : Operation}
    (h : operation ≠ .simultaneousKeyPresses) (params : String) (numbering : Numbering)
    (suffixes : Nat) (rule : Rule) :
    rule.compileOperation resolver operation params { numbering with suffixes } =
      let step := rule.compileOperation resolver operation params numbering
      { step with numbering := { step.numbering with suffixes } } := by
  cases hStatement : operation.expression? params with
  | some statement => simp only [compileOperation_expression resolver _ _ hStatement]
  | none =>
    have hTable := Operation.needsTable_of_expression?_eq_none hStatement
    simp only [compileOperation_table resolver _ _ _ hTable, compileTable,
      Operation.operands_of_ne h]
    cases OperandGroup.classifyParams resolver params <;> rfl

/-- A line that asks for no simultaneous presses does the same whatever suffix is next. -/
theorem compileLine_suffixes (resolver : Resolver) {line : String} (h : ¬ AsksForChord line)
    (numbering : Numbering) (suffixes : Nat) (rule : Rule) :
    rule.compileLine resolver line { numbering with suffixes } =
      let step := rule.compileLine resolver line numbering
      { step with numbering := { step.numbering with suffixes } } := by
  unfold compileLine
  cases rule.guard.offer line with
  | some guard => rfl
  | none =>
    cases hRead : Annotation.read? line with
    | none => rfl
    | some found =>
      cases hName : Operation.ofName? found.operation with
      | none => simp only [hName]
      | some operation =>
        have hOther : operation ≠ .simultaneousKeyPresses := by
          rintro rfl
          exact h ⟨found, hRead, (Operation.ofName?_eq_some_iff.mp hName).symm⟩
        simpa only [hName] using
          compileOperation_suffixes resolver hOther found.params numbering suffixes rule

theorem takeLines_suffixes (resolver : Resolver) {lines : List String}
    (h : ∀ line ∈ lines, ¬ AsksForChord line) (numbering : Numbering) (suffixes : Nat)
    (rule : Rule) :
    rule.takeLines resolver lines { numbering with suffixes } =
      let run := rule.takeLines resolver lines numbering
      { run with numbering := { run.numbering with suffixes } } := by
  induction lines generalizing rule numbering with
  | nil => rfl
  | cons line lines ih =>
    obtain ⟨hLine, hLines⟩ := List.forall_mem_cons.mp h
    rw [takeLines, compileLine_suffixes resolver hLine]
    dsimp only
    rw [ih hLines, takeLines]

/-! ## What a line that fails leaves behind -/

/-- A line that fails has an annotation, and all that it has done is to take the suffix. -/
theorem exists_of_error {resolver : Resolver} {line : String} {numbering : Numbering}
    {rule : Rule} {cause : CompileError}
    (h : (rule.compileLine resolver line numbering).outcome = .error cause) :
    ∃ found : Annotation, Annotation.read? line = some found ∧ cause.rule = rule.name ∧
      cause.operation = found.operation ∧
      (rule.compileLine resolver line numbering).rule = rule ∧
      (rule.compileLine resolver line numbering).numbering = { numbering with
        suffixes := numbering.suffixes +
          if found.operation = "SimultaneousKeyPresses" then 1 else 0 } := by
  have hCase := compileLine_case resolver line numbering rule
  generalize rule.compileLine resolver line numbering = step at hCase h ⊢
  cases hCase with
  | @unknown found _ hRead hName =>
    cases h
    have hOther : ¬ found.operation = "SimultaneousKeyPresses" :=
      fun hEq => Operation.ofName?_eq_none_iff.mp hName .simultaneousKeyPresses hEq.symm
    refine ⟨found, hRead, rfl, rfl, rfl, ?_⟩
    rw [if_neg hOther]
    rfl
  | @refused found operation params after _ _ hRead hName _ hOperands =>
    cases h
    have hFound := Operation.ofName?_eq_some_iff.mp hName
    have hAfter := operation.snd_operands found.params numbering
    rw [hOperands] at hAfter
    refine ⟨found, hRead, rfl, hFound, rfl, ?_⟩
    have hChord : operation = .simultaneousKeyPresses ↔
        found.operation = "SimultaneousKeyPresses" := by
      rw [← hFound]
      exact ⟨congrArg Operation.name, fun hName => Operation.name_injective hName⟩
    simpa only [hChord] using hAfter
  | _ => cases h

/-- Where the line that fails or all lines behind it ask for no simultaneous presses, these lines
fare as they do where the failed line has never been. -/
theorem takeLines_of_error {resolver : Resolver} {line : String} {numbering : Numbering}
    {rule : Rule} {cause : CompileError}
    (h : (rule.compileLine resolver line numbering).outcome = .error cause) (other : Rule)
    (later : Resolver) {lines : List String}
    (hChords : ¬ (AsksForChord line ∧ ∃ next ∈ lines, AsksForChord next)) :
    let seen := other.takeLines later lines (rule.compileLine resolver line numbering).numbering
    let unseen := other.takeLines later lines numbering
    seen.rule = unseen.rule ∧ seen.outcomes = unseen.outcomes := by
  obtain ⟨found, hRead, -, -, -, hNumbering⟩ := exists_of_error h
  rw [hNumbering]
  by_cases hFound : found.operation = "SimultaneousKeyPresses"
  · have hLines : ∀ next ∈ lines, ¬ AsksForChord next :=
      fun next hNext hAsks => hChords ⟨⟨found, hRead, hFound⟩, next, hNext, hAsks⟩
    rw [takeLines_suffixes later hLines]
    exact ⟨rfl, rfl⟩
  · rw [if_neg hFound]
    exact ⟨rfl, rfl⟩

/-- **A line that fails changes nothing but a suffix.** The rule is as before, and no slot is
taken. The error names the rule and the operation found on the line, and one suffix is taken if this
is simultaneous presses, none otherwise. Hence a table that a later line brings, to whatever rule,
is set up in the slot that was next before the failed line, counted on by the tables that come in
between; the same holds where the failed line has never been. So the slot is the same in both cases
exactly if as many tables come in between, and this is so, since all lines in between fare alike,
unless the failed line and one of these lines ask for simultaneous presses. -/
theorem compileLine_of_error {resolver : Resolver} {line : String} {numbering : Numbering}
    {rule : Rule} {cause : CompileError}
    (h : (rule.compileLine resolver line numbering).outcome = .error cause) :
    let step := rule.compileLine resolver line numbering
    step.rule = rule ∧ step.numbering.slots = numbering.slots ∧
    (∃ found : Annotation, Annotation.read? line = some found ∧ cause.rule = rule.name ∧
      cause.operation = found.operation ∧
      step.numbering.suffixes =
        numbering.suffixes + if found.operation = "SimultaneousKeyPresses" then 1 else 0) ∧
    ∀ (other : Rule) (later : Resolver) (between : List String) (last : String),
      let seen := other.takeLines later between step.numbering
      let unseen := other.takeLines later between numbering
      let seenLast := seen.rule.compileLine later last seen.numbering
      let unseenLast := unseen.rule.compileLine later last unseen.numbering
      (bringsTable seenLast.outcome = true → seenLast.rule.tableSlots =
        seen.rule.tableSlots ++ [numbering.slots + tablesBrought seen.outcomes]) ∧
      (bringsTable unseenLast.outcome = true → unseenLast.rule.tableSlots =
        unseen.rule.tableSlots ++ [numbering.slots + tablesBrought unseen.outcomes]) ∧
      (¬ (AsksForChord line ∧ ∃ next ∈ between, AsksForChord next) →
        seen.rule = unseen.rule ∧ seen.outcomes = unseen.outcomes) := by
  intro step
  obtain ⟨found, hRead, hName, hOperation, hRule, hNumbering⟩ := exists_of_error h
  have hSlots : step.numbering.slots = numbering.slots := by
    rw [hNumbering]
  refine ⟨hRule, hSlots, ⟨found, hRead, hName, hOperation, ?_⟩, ?_⟩
  · exact congrArg Numbering.suffixes hNumbering
  · intro other later between last seen unseen seenLast unseenLast
    refine ⟨?_, ?_, takeLines_of_error h other later⟩
    · intro hLast
      rw [tableSlots_of_bringsTable hLast, slots_takeLines, hSlots]
    · intro hLast
      rw [tableSlots_of_bringsTable hLast, slots_takeLines]

/-- Simultaneous presses that fail at their second group, behind the pseudo key: the suffix is
spent, and two later tables get the two slots that were next. -/
theorem compileLine_of_error_spent_suffix :
    ∃ (line later : String) (numbering : Numbering) (cause : CompileError) (step : LineStep),
      line = "<autogen>--SimultaneousKeyPresses-- KeyCode::A, Nothing::B</autogen>" ∧
      later = "<autogen>--KeyToKey-- KeyCode::A</autogen>" ∧
      numbering = { slots := 5, suffixes := 2 } ∧
      step = (new "r" (.filter [])).compileLine (.constant 7) line numbering ∧
      step.outcome = .error cause ∧ cause.rule = "r" ∧
      cause.operation = "SimultaneousKeyPresses" ∧ step.rule = new "r" (.filter []) ∧
      step.numbering.slots = 5 ∧ step.numbering.suffixes = 3 ∧
      (let run := (new "s" .none).takeLines (.constant 7) [later] step.numbering
      (run.rule.compileLine (.constant 7) later run.numbering).rule.tableSlots = [5, 6]) := by
  obtain ⟨line, hLine⟩ : ∃ line : String,
      line = "<autogen>--SimultaneousKeyPresses-- KeyCode::A, Nothing::B</autogen>" := ⟨_, rfl⟩
  obtain ⟨later, hLater⟩ : ∃ later : String,
      later = "<autogen>--KeyToKey-- KeyCode::A</autogen>" := ⟨_, rfl⟩
  have hError : ((new "r" (.filter [])).compileLine (.constant 7) line ⟨5, 2⟩).outcome =
      .error (.operand "r" "SimultaneousKeyPresses" (.unknownCategory "Nothing::B")) := by
    subst hLine
    decide +kernel
  have hFound : Annotation.read? line =
      some ⟨"SimultaneousKeyPresses", "KeyCode::A, Nothing::B"⟩ := by
    subst hLine
    decide +kernel
  obtain ⟨hRule, hSlots, ⟨found, hRead, _, _, hSuffixes⟩, hTables⟩ := compileLine_of_error hError
  cases hFound.symm.trans hRead
  obtain ⟨hSeen, _, _⟩ := hTables (new "s" .none) (.constant 7) [later] later
  generalize hRun : (new "s" .none).takeLines (.constant 7) [later]
    ((new "r" (.filter [])).compileLine (.constant 7) line ⟨5, 2⟩).numbering = run at hSeen
  have hBetween : run.rule.tableSlots = [5] ∧ tablesBrought run.outcomes = 1 ∧
      bringsTable (run.rule.compileLine (.constant 7) later run.numbering).outcome = true := by
    subst hRun hLine hLater
    decide +kernel
  have hLast := hSeen hBetween.2.2
  rw [hBetween.1, hBetween.2.1] at hLast
  refine ⟨line, later, ⟨5, 2⟩, _, _, hLine, hLater, rfl, rfl, hError, rfl, rfl, hRule, hSlots,
    hSuffixes, ?_⟩
  rw [hRun]
  exact hLast

/-- A line that fails can move the slot of a table behind it after all. There is one pseudo key, and
simultaneous presses that fail spend its suffix; those that follow would have taken the first slot,
but find no pseudo key, and so the table behind them gets that slot. -/
theorem not_slot_kept :
    ¬ ∀ (resolver : Resolver) (line : String) (numbering : Numbering) (rule : Rule)
        (cause : CompileError) (between : List String) (last : String),
      let step := rule.compileLine resolver line numbering
      let seen := step.rule.takeLines resolver between step.numbering
      let unseen := rule.takeLines resolver between numbering
      let seenLast := seen.rule.compileLine resolver last seen.numbering
      let unseenLast := unseen.rule.compileLine resolver last unseen.numbering
      step.outcome = .error cause → bringsTable seenLast.outcome = true →
      bringsTable unseenLast.outcome = true →
      seenLast.rule.tableSlots.getLast? = unseenLast.rule.tableSlots.getLast? := by
  intro hKept
  let resolver : Resolver :=
    { code? := fun _ name =>
        if name = "A" then some 7 else if name = pseudoKey 0 then some 100 else none
      flag? := fun _ => none }
  have hSame := hKept resolver "<autogen>--SimultaneousKeyPresses-- Nothing::A</autogen>" {}
    (new "r" (.filter []))
    (.operand "r" "SimultaneousKeyPresses" (.unknownCategory "Nothing::A"))
    ["<autogen>--SimultaneousKeyPresses-- KeyCode::A</autogen>"]
    "<autogen>--KeyToKey-- KeyCode::A</autogen>"
  -- the three premises hold here, and the last slots are 0 and 1
  revert hSame
  decide +kernel

end Rule

end KeyRemap
