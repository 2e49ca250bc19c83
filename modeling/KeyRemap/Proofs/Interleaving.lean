import KeyRemap.ClassText
import KeyRemap.Proofs.Merging

/-!
# Filters and operations in any mixture

A line is a filter, an operation or nothing to the rule. Filters go into the guard, operations bring
statements and take numbers, and neither looks at what the other has left behind. So a rule ends as
if its operations came first and its filters after them, however the two are mixed and whatever
lines stand in between.

* `LineKind.of`: the kind of a line, which is seen from the line and the style of the guard.
* `Rule.kind_compileLine`, `Rule.compileLine_withClauses`: a rule treats a line according to its
  kind, and an operation does the same whatever clauses the guard has.
* `Rule.takeLines_eq_operations`: lines in terms of their operations and of their clauses.
* `Rule.takeLines_of_same_subsequences`: lines with the same filters and the same operations, each
  in the same order, come to the same.
-/

namespace KeyRemap

/-! ## The kind of a line -/

/-- What a line is to a rule. -/
inductive LineKind where
  | filter
  | operation
  | other
  deriving DecidableEq, Repr

namespace LineKind

/-- The kind of a line for rules of a style. A line that the guard takes is a filter, even if there
is an annotation on it. -/
def of (style : GuardStyle) (line : String) : LineKind :=
  match style.clause? line, Annotation.read? line with
  | some _, _ => filter
  | none, some _ => operation
  | none, none => other

/-- The kind of the lines that have a given outcome. Only operations fail. -/
def ofOutcome : Except CompileError LineOutcome → LineKind
  | .ok .guard => filter
  | .ok .passthrough => other
  | .ok (.operation _) => operation
  | .error _ => operation

/-- The lines of a kind, in their order. -/
def select (kind : LineKind) (style : GuardStyle) (lines : List String) : List String :=
  lines.filter fun line => of style line = kind

theorem select_cons (kind : LineKind) (style : GuardStyle) (line : String) (lines : List String) :
    kind.select style (line :: lines) =
      if of style line = kind then line :: kind.select style lines
      else kind.select style lines := by
  by_cases h : of style line = kind <;> simp [select, h]

theorem of_eq_filter_iff {style : GuardStyle} {line : String} :
    of style line = filter ↔ ∃ clause, style.clause? line = some clause := by
  unfold of
  cases style.clause? line <;> cases Annotation.read? line <;> simp

theorem clause?_eq_none {style : GuardStyle} {line : String} (h : of style line ≠ filter) :
    style.clause? line = none := by
  rw [Option.eq_none_iff_forall_ne_some]
  intro clause hClause
  exact h (of_eq_filter_iff.mpr ⟨clause, hClause⟩)

/-- The clauses of lines are those of the filters among them. -/
theorem filterMap_select_filter (style : GuardStyle) (lines : List String) :
    (filter.select style lines).filterMap style.clause? = lines.filterMap style.clause? := by
  induction lines with
  | nil => rfl
  | cons line lines ih =>
    rw [select_cons, List.filterMap_cons]
    by_cases h : of style line = filter
    · rw [if_pos h, List.filterMap_cons, ih]
    · rw [if_neg h, ih, clause?_eq_none h]

end LineKind

/-! ## Lines in terms of their kinds -/

namespace Rule

/-- A rule treats a line according to its kind, whatever the rule has gathered. -/
theorem kind_compileLine (resolver : Resolver) (line : String) (numbering : Numbering)
    (rule : Rule) :
    LineKind.ofOutcome (rule.compileLine resolver line numbering).outcome =
      LineKind.of rule.guard.style line := by
  have hCase := compileLine_case resolver line numbering rule
  have hOffer := rule.guard.offer_eq line
  generalize rule.compileLine resolver line numbering = step at hCase ⊢
  unfold LineKind.of
  cases hClause : rule.guard.style.clause? line with
  | some clause =>
    rw [hClause, Option.map_some] at hOffer
    cases hCase with
    | clause => rfl
    | _ h => cases hOffer.symm.trans h
  | none =>
    rw [hClause, Option.map_none] at hOffer
    cases hCase with
    | clause h => cases hOffer.symm.trans h
    | plain _ hRead => simp [hRead, LineKind.ofOutcome]
    | unknown _ hRead => simp [hRead, LineKind.ofOutcome]
    | expression _ hRead => simp [hRead, LineKind.ofOutcome]
    | refused _ hRead => simp [hRead, LineKind.ofOutcome]
    | table _ hRead => simp [hRead, LineKind.ofOutcome]

/-- The rule with more clauses in its guard. -/
def withClauses (rule : Rule) (more : List FilterClause) : Rule :=
  { rule with guard := rule.guard.extend more }

theorem withClauses_nil (rule : Rule) : rule.withClauses [] = rule := by
  rw [withClauses, Guard.extend_nil]

theorem withClauses_withClauses (rule : Rule) (first second : List FilterClause) :
    (rule.withClauses first).withClauses second = rule.withClauses (first ++ second) := by
  obtain ⟨name, guard, fragments, tableCount, slotCount, finalized⟩ := rule
  cases guard <;> simp [withClauses, Guard.extend]

theorem style_withClauses (rule : Rule) (more : List FilterClause) :
    (rule.withClauses more).guard.style = rule.guard.style :=
  Guard.style_extend _ _

theorem style_compileLine (resolver : Resolver) (line : String) (numbering : Numbering)
    (rule : Rule) :
    (rule.compileLine resolver line numbering).rule.guard.style = rule.guard.style := by
  rw [guard_compileLine, Guard.style_extend]

theorem compileLine_of_clause (resolver : Resolver) {line : String} (numbering : Numbering)
    {rule : Rule} {clause : FilterClause} (h : rule.guard.style.clause? line = some clause) :
    rule.compileLine resolver line numbering =
      { outcome := .ok .guard, rule := rule.withClauses [clause], numbering } := by
  simp [compileLine, Guard.offer_eq, h, withClauses]

theorem compileLine_of_other (resolver : Resolver) {line : String} (numbering : Numbering)
    {rule : Rule} (h : LineKind.of rule.guard.style line = .other) :
    rule.compileLine resolver line numbering =
      { outcome := .ok .passthrough, rule, numbering } := by
  have hClause : rule.guard.style.clause? line = none := LineKind.clause?_eq_none (by simp [h])
  have hRead : Annotation.read? line = none := by
    unfold LineKind.of at h
    rw [hClause] at h
    cases hRead : Annotation.read? line with
    | none => rfl
    | some found =>
      rw [hRead] at h
      cases h
  simp [compileLine, Guard.offer_eq, hClause, hRead]

/-- A line that is no filter does not look at the clauses of the guard. -/
theorem compileLine_withClauses (resolver : Resolver) {line : String} (numbering : Numbering)
    {rule : Rule} (h : rule.guard.style.clause? line = none) (more : List FilterClause) :
    (rule.withClauses more).compileLine resolver line numbering =
      let step := rule.compileLine resolver line numbering
      { step with rule := step.rule.withClauses more } := by
  have hAlone : (lineAlone resolver rule.name rule.guard.style line numbering).rule.guard.clauses =
      [] := by
    have hFresh : (new rule.name rule.guard.style.fresh).guard = rule.guard.style.fresh := rfl
    rw [lineAlone, guard_compileLine, hFresh, Guard.style_fresh, h, Option.toList_none,
      Guard.extend_nil, Guard.clauses_fresh]
  have hName : (rule.withClauses more).name = rule.name := rfl
  rw [compileLine_eq_absorb, compileLine_eq_absorb, style_withClauses, hName]
  simp only [absorbStep, absorb, hAlone, Guard.extend_nil, withClauses]

theorem takeLines_withClauses (resolver : Resolver) {lines : List String} (numbering : Numbering)
    {rule : Rule} (h : ∀ line ∈ lines, rule.guard.style.clause? line = none)
    (more : List FilterClause) :
    (rule.withClauses more).takeLines resolver lines numbering =
      let run := rule.takeLines resolver lines numbering
      { run with rule := run.rule.withClauses more } := by
  induction lines generalizing rule numbering with
  | nil => rfl
  | cons line lines ih =>
    obtain ⟨hLine, hLines⟩ := List.forall_mem_cons.mp h
    rw [← style_compileLine resolver line numbering rule] at hLines
    simp only [takeLines, compileLine_withClauses resolver numbering hLine, ih _ hLines]

/-- The operations among lines, given to a rule alone. -/
def takeOperations (resolver : Resolver) (lines : List String) (numbering : Numbering)
    (rule : Rule) : LinesStep :=
  rule.takeLines resolver (LineKind.operation.select rule.guard.style lines) numbering

theorem takeOperations_withClauses (resolver : Resolver) (lines : List String)
    (numbering : Numbering) (rule : Rule) (more : List FilterClause) :
    (rule.withClauses more).takeOperations resolver lines numbering =
      let run := rule.takeOperations resolver lines numbering
      { run with rule := run.rule.withClauses more } := by
  have hNone : ∀ line ∈ LineKind.operation.select rule.guard.style lines,
      rule.guard.style.clause? line = none := by
    intro line hLine
    have hKind : LineKind.of rule.guard.style line = .operation := by
      simpa [LineKind.select] using (List.mem_filter.mp hLine).2
    exact LineKind.clause?_eq_none (by simp [hKind])
  rw [takeOperations, style_withClauses]
  exact takeLines_withClauses resolver numbering hNone more

theorem takeOperations_cons_of_ne (resolver : Resolver) {line : String} (lines : List String)
    (numbering : Numbering) {rule : Rule} (h : LineKind.of rule.guard.style line ≠ .operation) :
    rule.takeOperations resolver (line :: lines) numbering =
      rule.takeOperations resolver lines numbering := by
  rw [takeOperations, takeOperations, LineKind.select_cons, if_neg h]

/-- What lines do to a rule is what their operations do alone, with the clauses of their filters
behind those of the guard; the operations have the outcomes that they have alone. The induction is
on the lines, with one case for each kind of line. -/
theorem takeLines_eq_operations (resolver : Resolver) (lines : List String) (numbering : Numbering)
    (rule : Rule) :
    let run := rule.takeLines resolver lines numbering
    let alone := rule.takeOperations resolver lines numbering
    run.rule = alone.rule.withClauses (lines.filterMap rule.guard.style.clause?) ∧
    run.numbering = alone.numbering ∧
    (run.outcomes.filter fun outcome => LineKind.ofOutcome outcome = .operation) =
      alone.outcomes := by
  induction lines generalizing rule numbering with
  | nil => exact ⟨(withClauses_nil rule).symm, rfl, rfl⟩
  | cons line lines ih =>
    have hKind := kind_compileLine resolver line numbering rule
    cases hLine : LineKind.of rule.guard.style line with
    | filter =>
      obtain ⟨clause, hClause⟩ := LineKind.of_eq_filter_iff.mp hLine
      obtain ⟨hRule, hNumbering, hOutcomes⟩ := ih numbering (rule.withClauses [clause])
      rw [takeOperations_withClauses] at hRule hNumbering hOutcomes
      have hSelect := takeOperations_cons_of_ne resolver lines numbering
        (show LineKind.of rule.guard.style line ≠ .operation by simp [hLine])
      have hTake : rule.takeLines resolver (line :: lines) numbering =
          let rest := (rule.withClauses [clause]).takeLines resolver lines numbering
          { rest with outcomes := .ok .guard :: rest.outcomes } := by
        simp only [takeLines, compileLine_of_clause resolver numbering hClause]
      rw [hTake, hSelect, List.filterMap_cons, hClause]
      refine ⟨?_, hNumbering, ?_⟩
      · rw [style_withClauses] at hRule
        exact hRule.trans (withClauses_withClauses _ _ _)
      · simpa [LineKind.ofOutcome] using hOutcomes
    | other =>
      have hClause : rule.guard.style.clause? line = none :=
        LineKind.clause?_eq_none (by simp [hLine])
      have hSelect := takeOperations_cons_of_ne resolver lines numbering
        (show LineKind.of rule.guard.style line ≠ .operation by simp [hLine])
      have hTake : rule.takeLines resolver (line :: lines) numbering =
          let rest := rule.takeLines resolver lines numbering
          { rest with outcomes := .ok .passthrough :: rest.outcomes } := by
        simp only [takeLines, compileLine_of_other resolver numbering hLine]
      obtain ⟨hRule, hNumbering, hOutcomes⟩ := ih numbering rule
      rw [hTake, hSelect, List.filterMap_cons, hClause]
      refine ⟨hRule, hNumbering, ?_⟩
      simpa [LineKind.ofOutcome] using hOutcomes
    | operation =>
      have hClause : rule.guard.style.clause? line = none :=
        LineKind.clause?_eq_none (by simp [hLine])
      have hStyle := style_compileLine resolver line numbering rule
      have hSelect : rule.takeOperations resolver (line :: lines) numbering =
          let step := rule.compileLine resolver line numbering
          let rest := step.rule.takeOperations resolver lines step.numbering
          { rest with outcomes := step.outcome :: rest.outcomes } := by
        simp [takeOperations, LineKind.select_cons, hLine, takeLines, hStyle]
      obtain ⟨hRule, hNumbering, hOutcomes⟩ :=
        ih (rule.compileLine resolver line numbering).numbering
          (rule.compileLine resolver line numbering).rule
      rw [hStyle] at hRule
      rw [hSelect, List.filterMap_cons, hClause, takeLines]
      refine ⟨hRule, hNumbering, ?_⟩
      simpa [hKind, hLine] using hOutcomes

theorem kinds_takeLines (resolver : Resolver) (lines : List String) (numbering : Numbering)
    (rule : Rule) :
    (rule.takeLines resolver lines numbering).outcomes.map LineKind.ofOutcome =
      lines.map (LineKind.of rule.guard.style) := by
  induction lines generalizing rule numbering with
  | nil => rfl
  | cons line lines ih =>
    simp only [takeLines, List.map_cons, ih, kind_compileLine, style_compileLine]

/-! ## Lines mixed in two ways -/

/-- All lines compile exactly if the operations among them do alone. -/
theorem takeLines_compile_iff (resolver : Resolver) (lines : List String) (numbering : Numbering)
    (rule : Rule) :
    (∀ result ∈ (rule.takeLines resolver lines numbering).outcomes,
      ∃ outcome, result = .ok outcome) ↔
    ∀ result ∈ (rule.takeOperations resolver lines numbering).outcomes,
      ∃ outcome, result = .ok outcome := by
  obtain ⟨_, _, hOutcomes⟩ := takeLines_eq_operations resolver lines numbering rule
  rw [← hOutcomes]
  constructor
  · intro h result hResult
    exact h result (List.mem_of_mem_filter hResult)
  · intro h result hResult
    cases result with
    | ok outcome => exact ⟨outcome, rfl⟩
    | error cause => exact h _ (List.mem_filter.mpr ⟨hResult, rfl⟩)

/-- **Only the order among filters and the order among operations count.** A rule takes lines as
filters, operations or neither, which is seen from the lines alone. Take two lists of lines with the
same filters and the same operations, each in the same order, mixed in any way and with any other
lines in between. If all lines of the one compile, so do all lines of the other. Both leave the same
rule and the same numbering, and so the closed rule is written out as the same text with the same
entry. -/
theorem takeLines_of_same_subsequences (resolver : Resolver) (numbering : Numbering) (rule : Rule)
    {first second : List String}
    (hFilters : LineKind.filter.select rule.guard.style first =
      LineKind.filter.select rule.guard.style second)
    (hOperations : LineKind.operation.select rule.guard.style first =
      LineKind.operation.select rule.guard.style second) :
    let run₁ := rule.takeLines resolver first numbering
    let run₂ := rule.takeLines resolver second numbering
    run₁.outcomes.map LineKind.ofOutcome = first.map (LineKind.of rule.guard.style) ∧
    run₂.outcomes.map LineKind.ofOutcome = second.map (LineKind.of rule.guard.style) ∧
    ((∀ result ∈ run₁.outcomes, ∃ outcome, result = .ok outcome) →
      ∀ result ∈ run₂.outcomes, ∃ outcome, result = .ok outcome) ∧
    run₂.rule = run₁.rule ∧ run₂.numbering = run₁.numbering ∧
    ∀ resolver', run₂.rule.finalize.render resolver' = run₁.rule.finalize.render resolver' := by
  intro run₁ run₂
  obtain ⟨hRule₁, hNumbering₁, _⟩ := takeLines_eq_operations resolver first numbering rule
  obtain ⟨hRule₂, hNumbering₂, _⟩ := takeLines_eq_operations resolver second numbering rule
  have hAlone : rule.takeOperations resolver second numbering =
      rule.takeOperations resolver first numbering := by
    rw [takeOperations, takeOperations, hOperations]
  have hClauses : second.filterMap rule.guard.style.clause? =
      first.filterMap rule.guard.style.clause? := by
    rw [← LineKind.filterMap_select_filter, ← hFilters, LineKind.filterMap_select_filter]
  have hRule : run₂.rule = run₁.rule := by rw [hRule₁, hRule₂, hAlone, hClauses]
  refine ⟨kinds_takeLines .., kinds_takeLines .., ?_, hRule, ?_, ?_⟩
  · intro hFirst
    rw [takeLines_compile_iff] at hFirst ⊢
    rwa [hAlone]
  · rw [hNumbering₁, hNumbering₂, hAlone]
  · intro resolver'
    rw [hRule]

/-- Filters behind the operations, or before and between them: the block of the closed rule begins
with the code of both filters either way. -/
theorem takeLines_of_same_subsequences_late_filters :
    ∃ first second run₁ run₂,
      first = ["<only>A</only>", "<autogen>--KeyToKey-- KeyCode::A</autogen>", "<not>B</not>",
        "<autogen>--SimultaneousKeyPresses-- KeyCode::A</autogen>"] ∧
      second = ["<name>n</name>", "<autogen>--KeyToKey-- KeyCode::A</autogen>",
        "<autogen>--SimultaneousKeyPresses-- KeyCode::A</autogen>", "<only>A</only>", "",
        "<not>B</not>"] ∧
      run₁ = (new "r" (.filter [])).takeLines (.constant 7) first ⟨2, 1⟩ ∧
      run₂ = (new "r" (.filter [])).takeLines (.constant 7) second ⟨2, 1⟩ ∧
      run₂.rule = run₁.rule ∧ run₂.numbering = ⟨4, 2⟩ ∧
      (∀ result ∈ run₂.outcomes, ∃ outcome, result = .ok outcome) ∧
      run₂.rule.finalize.fragments.get .key =
        [.firstMatch (FilterClause.code ⟨.applicationOnly, ["A"]⟩ ++
          FilterClause.code ⟨.applicationNot, ["B"]⟩) [.remap 2, .remap 3]] := by
  obtain ⟨first, hFirst⟩ : ∃ first : List String, first =
      ["<only>A</only>", "<autogen>--KeyToKey-- KeyCode::A</autogen>", "<not>B</not>",
        "<autogen>--SimultaneousKeyPresses-- KeyCode::A</autogen>"] := ⟨_, rfl⟩
  obtain ⟨second, hSecond⟩ : ∃ second : List String, second =
      ["<name>n</name>", "<autogen>--KeyToKey-- KeyCode::A</autogen>",
        "<autogen>--SimultaneousKeyPresses-- KeyCode::A</autogen>", "<only>A</only>", "",
        "<not>B</not>"] := ⟨_, rfl⟩
  have hSame : LineKind.filter.select .filter first = LineKind.filter.select .filter second ∧
      LineKind.operation.select .filter first = LineKind.operation.select .filter second := by
    subst hFirst hSecond
    decide +kernel
  obtain ⟨hOk, hNumbering, hKey⟩ :
      ((new "r" (.filter [])).takeLines (.constant 7) first ⟨2, 1⟩).outcomes.all Except.isOk =
        true ∧
      ((new "r" (.filter [])).takeLines (.constant 7) first ⟨2, 1⟩).numbering = ⟨4, 2⟩ ∧
      ((new "r" (.filter [])).takeLines (.constant 7) first ⟨2, 1⟩).rule.finalize.fragments.get
        .key = [.firstMatch (FilterClause.code ⟨.applicationOnly, ["A"]⟩ ++
          FilterClause.code ⟨.applicationNot, ["B"]⟩) [.remap 2, .remap 3]] := by
    subst hFirst
    decide +kernel
  obtain ⟨_, _, hCompile, hRule, hAfter, _⟩ :=
    takeLines_of_same_subsequences (.constant 7) ⟨2, 1⟩ (new "r" (.filter [])) hSame.1 hSame.2
  refine ⟨first, second, _, _, hFirst, hSecond, rfl, rfl, hRule, hAfter.trans hNumbering, ?_, ?_⟩
  · apply hCompile
    intro result hResult
    cases result with
    | ok outcome => exact ⟨outcome, rfl⟩
    | error cause => cases List.all_eq_true.mp hOk _ hResult
  · rw [hRule, hKey]

end Rule

end KeyRemap
