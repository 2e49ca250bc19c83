import KeyRemap.Proofs.Dispatch
import Mathlib.Data.List.Basic

/-!
# Merging parts of a rule

The lines of a rule can be cut into chunks, each compiled as a rule of its own with the numbering
handed on from chunk to chunk. Merging the rules of the chunks, with brackets wherever one likes,
gives what one rule makes of all the lines. Only the guard differs: a merge keeps that of its first
part, while one rule collects the clauses of all its lines.

* `Rule.takeLines`: lines one after the other in one rule, those that fail included.
* `Rule.takeLines_eq_absorb`: what lines do to a rule is what they do alone, absorbed by the rule.
* `Rule.merged_of_chunks`: merging chunks is compiling all their lines.
-/

namespace KeyRemap

/-! ## Lines one after the other -/

/-- What lines have come to: the outcome of each, and the rule and the numbering behind them. -/
structure LinesStep where
  outcomes : List (Except CompileError LineOutcome)
  rule : Rule
  numbering : Numbering

namespace Rule

/-- Gives lines to a rule one after the other; a line that fails does not stop those behind it. -/
def takeLines (resolver : Resolver) : List String → Numbering → Rule → LinesStep
  | [], numbering, rule => { outcomes := [], rule, numbering }
  | line :: lines, numbering, rule =>
    let step := rule.compileLine resolver line numbering
    let rest := step.rule.takeLines resolver lines step.numbering
    { rest with outcomes := step.outcome :: rest.outcomes }

/-- Lines given to a rule without lines. -/
def linesAlone (resolver : Resolver) (name : String) (style : GuardStyle) (lines : List String)
    (numbering : Numbering) : LinesStep :=
  (new name style.fresh).takeLines resolver lines numbering

/-- Chunks of lines, each given to a rule of its own, and the numbering behind them. -/
def takeChunks (resolver : Resolver) (name : String) (style : GuardStyle) :
    List (List String) → Numbering → List LinesStep × Numbering
  | [], numbering => ([], numbering)
  | chunk :: chunks, numbering =>
    let step := linesAlone resolver name style chunk numbering
    let (steps, after) := takeChunks resolver name style chunks step.numbering
    (step :: steps, after)

/-- A way to merge rules two by two, in their order. -/
inductive Bracketing where
  | single (rule : Rule)
  | pair (first second : Bracketing)

namespace Bracketing

/-- The rules between the brackets, from left to right. -/
def rules : Bracketing → List Rule
  | single rule => [rule]
  | pair first second => first.rules ++ second.rules

def merged : Bracketing → Rule
  | single rule => rule
  | pair first second => first.merged.merge second.merged

theorem rules_ne_nil (bracketing : Bracketing) : bracketing.rules ≠ [] := by
  induction bracketing with
  | single rule => simp [rules]
  | pair first second ih _ => simp [rules, ih]

end Bracketing

/-! ## Absorbing several lines -/

theorem style_lineAlone (resolver : Resolver) (name : String) (style : GuardStyle) (line : String)
    (numbering : Numbering) :
    (lineAlone resolver name style line numbering).rule.guard.style = style := by
  rw [lineAlone, guard_compileLine, Guard.style_extend]
  exact Guard.style_fresh style

theorem name_lineAlone (resolver : Resolver) (name : String) (style : GuardStyle) (line : String)
    (numbering : Numbering) :
    (lineAlone resolver name style line numbering).rule.name = name :=
  name_compileLine resolver line numbering _

end Rule

theorem Guard.extend_extend {guard other : Guard} (h : other.style = guard.style)
    (more : List FilterClause) :
    (guard.extend other.clauses).extend more = guard.extend (other.extend more).clauses := by
  cases guard with
  | none => rfl
  | filter clauses =>
    cases other with
    | none => cases h
    | filter others => simp [extend, Guard.clauses]

theorem Guard.clauses_extend {guard other : Guard} (h : other.style = guard.style) :
    (guard.extend other.clauses).clauses = guard.clauses ++ other.clauses := by
  cases guard with
  | none =>
    cases other with
    | none => rfl
    | filter others => cases h
  | filter clauses => rfl

theorem Fragments.append_assoc (first second third : Fragments) :
    (first.append second).append third = first.append (second.append third) := by
  ext1 hook
  simp [List.append_assoc]

namespace Rule

/-- Rules of one style can be absorbed one by one or together. -/
theorem absorb_assoc {rule other : Rule} (h : other.guard.style = rule.guard.style)
    (last : Rule) : (rule.absorb other).absorb last = rule.absorb (other.absorb last) := by
  simp [absorb, Guard.extend_extend h, Fragments.append_assoc, Nat.add_assoc, Nat.max_assoc]

/-- What lines do to a rule does not depend on what the rule has gathered: it is what they do alone,
absorbed by the rule. -/
theorem takeLines_eq_absorb (resolver : Resolver) (lines : List String) (numbering : Numbering)
    (rule : Rule) :
    rule.takeLines resolver lines numbering =
      let alone := linesAlone resolver rule.name rule.guard.style lines numbering
      { alone with rule := rule.absorb alone.rule } := by
  induction lines generalizing rule numbering with
  | nil => simp only [takeLines, linesAlone, absorb_new]
  | cons line lines ih =>
    have hAlone : linesAlone resolver rule.name rule.guard.style (line :: lines) numbering =
        let step := lineAlone resolver rule.name rule.guard.style line numbering
        let rest := step.rule.takeLines resolver lines step.numbering
        { rest with outcomes := step.outcome :: rest.outcomes } := rfl
    have hName := name_lineAlone resolver rule.name rule.guard.style line numbering
    have hStyle := style_lineAlone resolver rule.name rule.guard.style line numbering
    rw [takeLines, compileLine_eq_absorb, hAlone]
    generalize lineAlone resolver rule.name rule.guard.style line numbering = step
      at hName hStyle ⊢
    have hNext : (rule.absorb step.rule).guard.style = rule.guard.style := Guard.style_extend _ _
    have hNextName : (rule.absorb step.rule).name = rule.name := rfl
    -- The other lines are absorbed twice: by the first line alone, and by the rule behind it.
    simp only [absorbStep, ih step.numbering step.rule,
      ih step.numbering (rule.absorb step.rule), hName, hStyle, hNext, hNextName,
      absorb_assoc hStyle]

theorem takeLines_append (resolver : Resolver) (first second : List String)
    (numbering : Numbering) (rule : Rule) :
    rule.takeLines resolver (first ++ second) numbering =
      let before := rule.takeLines resolver first numbering
      let after := before.rule.takeLines resolver second before.numbering
      { after with outcomes := before.outcomes ++ after.outcomes } := by
  induction first generalizing rule numbering with
  | nil => rfl
  | cons line first ih => simp only [List.cons_append, takeLines, ih]

/-- Lines leave name, guard style and flag of a rule as they are. -/
theorem frame_linesAlone (resolver : Resolver) (name : String) (style : GuardStyle)
    (lines : List String) (numbering : Numbering) :
    (linesAlone resolver name style lines numbering).rule.name = name ∧
    (linesAlone resolver name style lines numbering).rule.guard.style = style ∧
    (linesAlone resolver name style lines numbering).rule.finalized = false := by
  rw [linesAlone, takeLines_eq_absorb]
  exact ⟨rfl, (Guard.style_extend _ _).trans (Guard.style_fresh style), rfl⟩

/-- Lines behind others bring what they bring alone. -/
theorem linesAlone_append (resolver : Resolver) (name : String) (style : GuardStyle)
    (first second : List String) (numbering : Numbering) :
    linesAlone resolver name style (first ++ second) numbering =
      let before := linesAlone resolver name style first numbering
      let after := linesAlone resolver name style second before.numbering
      { outcomes := before.outcomes ++ after.outcomes
        rule := before.rule.absorb after.rule
        numbering := after.numbering } := by
  let before := linesAlone resolver name style first numbering
  obtain ⟨hName, hStyle, _⟩ := frame_linesAlone resolver name style first numbering
  have hSecond := takeLines_eq_absorb resolver second before.numbering before.rule
  rw [hName, hStyle] at hSecond
  exact (takeLines_append resolver first second numbering (new name style.fresh)).trans
    (congrArg (fun after => { after with outcomes := before.outcomes ++ after.outcomes }) hSecond)

/-! ## Chunks -/

/-- What chunks come to line by line is what all their lines come to in one rule, which has the
clauses of all of them. -/
theorem takeChunks_eq (resolver : Resolver) (name : String) (style : GuardStyle)
    (chunks : List (List String)) (numbering : Numbering) :
    let parts := takeChunks resolver name style chunks numbering
    let whole := linesAlone resolver name style chunks.flatten numbering
    parts.1.flatMap LinesStep.outcomes = whole.outcomes ∧ parts.2 = whole.numbering ∧
    (parts.1.flatMap fun part => part.rule.guard.clauses) = whole.rule.guard.clauses := by
  induction chunks generalizing numbering with
  | nil => exact ⟨rfl, rfl, (Guard.clauses_fresh style).symm⟩
  | cons chunk chunks ih =>
    obtain ⟨_, hStyle, _⟩ := frame_linesAlone resolver name style chunk numbering
    simp only [takeChunks, List.flatten_cons, linesAlone_append, List.flatMap_cons]
    generalize linesAlone resolver name style chunk numbering = step at hStyle ⊢
    obtain ⟨hOutcomes, hNumbering, hClauses⟩ := ih step.numbering
    obtain ⟨_, hRest, _⟩ :=
      frame_linesAlone resolver name style chunks.flatten step.numbering
    refine ⟨?_, hNumbering, ?_⟩
    · rw [hOutcomes]
    · rw [hClauses]
      exact (Guard.clauses_extend (hRest.trans hStyle.symm)).symm

/-- Where the rules of chunks are cut in two, the chunks are. -/
theorem exists_of_rules_takeChunks {resolver : Resolver} {name : String} {style : GuardStyle}
    {chunks : List (List String)} {numbering : Numbering} {first second : List Rule}
    (h : first ++ second =
      (takeChunks resolver name style chunks numbering).1.map LinesStep.rule) :
    ∃ before later, chunks = before ++ later ∧
      first = (takeChunks resolver name style before numbering).1.map LinesStep.rule ∧
      second = (takeChunks resolver name style later
        (takeChunks resolver name style before numbering).2).1.map LinesStep.rule := by
  induction chunks generalizing first numbering with
  | nil =>
    obtain ⟨rfl, rfl⟩ := List.append_eq_nil_iff.mp h
    exact ⟨[], [], rfl, rfl, rfl⟩
  | cons chunk chunks ih =>
    cases first with
    | nil => exact ⟨[], chunk :: chunks, rfl, rfl, h⟩
    | cons rule first =>
      obtain ⟨hRule, hRest⟩ := List.cons_eq_cons.mp h
      obtain ⟨before, later, rfl, hFirst, hSecond⟩ := ih hRest
      refine ⟨chunk :: before, later, rfl, ?_, hSecond⟩
      rw [hRule, hFirst]
      rfl

/-- A merge of rules with equal flags differs from absorbing only in the guard. -/
theorem merge_eq_absorb {first second : Rule} (h : first.finalized = second.finalized) :
    first.merge second = { first.absorb second with guard := first.guard } := by
  simp [merge, absorb, h]

theorem guard_merged (bracketing : Bracketing) :
    bracketing.merged.guard = (bracketing.rules.head bracketing.rules_ne_nil).guard := by
  induction bracketing with
  | single rule => rfl
  | pair first second ih _ =>
    simp only [Bracketing.rules, List.head_append_of_ne_nil first.rules_ne_nil]
    exact ih

/-- Merged chunks are, but for the guard, what one rule makes of all their lines. The induction is
on the brackets: each pair of them cuts the lines in two. -/
theorem merged_eq {resolver : Resolver} {name : String} {style : GuardStyle}
    {bracketing : Bracketing} {chunks : List (List String)} {numbering : Numbering}
    (h : bracketing.rules =
      (takeChunks resolver name style chunks numbering).1.map LinesStep.rule) :
    bracketing.merged =
      { (linesAlone resolver name style chunks.flatten numbering).rule with
        guard := bracketing.merged.guard } := by
  induction bracketing generalizing chunks numbering with
  | single rule =>
    obtain ⟨chunk, rfl, rfl⟩ : ∃ chunk, chunks = [chunk] ∧
        rule = (linesAlone resolver name style chunk numbering).rule := by
      cases chunks with
      | nil => cases h
      | cons chunk chunks =>
        cases chunks with
        | nil => exact ⟨chunk, rfl, List.singleton_inj.mp h⟩
        | cons => cases h
    rw [List.flatten_singleton]
    rfl
  | pair first second ih₁ ih₂ =>
    obtain ⟨before, later, rfl, hFirst, hSecond⟩ := exists_of_rules_takeChunks h
    have hNumbering := (takeChunks_eq resolver name style before numbering).2.1
    have hBefore := ih₁ hFirst
    have hLater := ih₂ hSecond
    rw [hNumbering] at hLater
    obtain ⟨_, _, hOpen⟩ := frame_linesAlone resolver name style before.flatten numbering
    obtain ⟨_, _, hOpen'⟩ := frame_linesAlone resolver name style later.flatten
      (linesAlone resolver name style before.flatten numbering).numbering
    rw [List.flatten_append, linesAlone_append, Bracketing.merged, hBefore, hLater]
    exact merge_eq_absorb (hOpen.trans hOpen'.symm)

/-- **Merging parts is compiling their lines.** Cut lines into chunks and compile each chunk as a
rule of its own, with the numbering handed on. Then every line has the outcome that it has when one
rule compiles all of them, be it an error or not, and the numbering at the end is the same. The
rules of the chunks, merged in order and with any brackets, are that one rule but for the guard: the
merged rule has the guard of the first chunk, the one rule has the clauses of all chunks. -/
theorem merged_of_chunks (resolver : Resolver) (name : String) (style : GuardStyle)
    (chunks : List (List String)) (numbering : Numbering) :
    let parts := takeChunks resolver name style chunks numbering
    let whole := (new name style.fresh).takeLines resolver chunks.flatten numbering
    parts.1.flatMap LinesStep.outcomes = whole.outcomes ∧ parts.2 = whole.numbering ∧
    (parts.1.flatMap fun part => part.rule.guard.clauses) = whole.rule.guard.clauses ∧
    ∀ bracketing : Bracketing, bracketing.rules = parts.1.map LinesStep.rule →
      ∃ first rest, parts.1 = first :: rest ∧
        bracketing.merged = { whole.rule with guard := first.rule.guard } := by
  intro parts whole
  obtain ⟨hOutcomes, hNumbering, hClauses⟩ :=
    takeChunks_eq resolver name style chunks numbering
  refine ⟨hOutcomes, hNumbering, hClauses, ?_⟩
  intro bracketing hRules
  have hGuard := guard_merged bracketing
  have hMerged := merged_eq hRules
  cases hParts : parts.1 with
  | nil =>
    rw [hParts] at hRules
    exact absurd hRules bracketing.rules_ne_nil
  | cons first rest =>
    simp only [hRules, hParts, List.map_cons, List.head_cons] at hGuard
    rw [hGuard] at hMerged
    exact ⟨first, rest, rfl, hMerged⟩

/-- Three chunks, one of them empty and one with a line that fails: both ways to put the brackets
give one rule, which has the clause of the first chunk only. -/
theorem merged_of_three_chunks :
    ∃ chunks a b c whole,
      chunks =
        [["<only>A</only>", "<autogen>--KeyToKey-- KeyCode::A</autogen>"], [],
          ["<autogen>--Nothing-- KeyCode::A</autogen>", "<not>B</not>",
            "<autogen>--SimultaneousKeyPresses-- KeyCode::A</autogen>"]] ∧
      (takeChunks (.constant 7) "r" .filter chunks {}).1.map LinesStep.rule = [a, b, c] ∧
      whole = ((new "r" (.filter [])).takeLines (.constant 7) chunks.flatten {}).rule ∧
      (a.merge b).merge c = { whole with guard := .filter [⟨.applicationOnly, ["A"]⟩] } ∧
      a.merge (b.merge c) = { whole with guard := .filter [⟨.applicationOnly, ["A"]⟩] } ∧
      whole.guard = .filter [⟨.applicationOnly, ["A"]⟩, ⟨.applicationNot, ["B"]⟩] ∧
      whole.tableCount = 2 := by
  obtain ⟨chunks, hChunks⟩ : ∃ chunks : List (List String), chunks =
      [["<only>A</only>", "<autogen>--KeyToKey-- KeyCode::A</autogen>"], [],
        ["<autogen>--Nothing-- KeyCode::A</autogen>", "<not>B</not>",
          "<autogen>--SimultaneousKeyPresses-- KeyCode::A</autogen>"]] :=
    ⟨_, rfl⟩
  obtain ⟨hLength, hGuard, hWhole, hTables⟩ :
      (takeChunks (.constant 7) "r" .filter chunks {}).1.length = 3 ∧
      (∀ first ∈ (takeChunks (.constant 7) "r" .filter chunks {}).1.head?,
        first.rule.guard = .filter [⟨.applicationOnly, ["A"]⟩]) ∧
      ((new "r" (.filter [])).takeLines (.constant 7) chunks.flatten {}).rule.guard =
        .filter [⟨.applicationOnly, ["A"]⟩, ⟨.applicationNot, ["B"]⟩] ∧
      ((new "r" (.filter [])).takeLines (.constant 7) chunks.flatten {}).rule.tableCount = 2 := by
    subst hChunks
    decide +kernel
  obtain ⟨_, _, _, hMerged⟩ := merged_of_chunks (.constant 7) "r" .filter chunks {}
  obtain ⟨a, b, c, hParts⟩ := List.length_eq_three.mp hLength
  rw [hParts] at hMerged hGuard
  have hFirst : a.rule.guard = .filter [⟨.applicationOnly, ["A"]⟩] := hGuard a rfl
  obtain ⟨_, _, hLeft, hLeftMerged⟩ :=
    hMerged (.pair (.pair (.single a.rule) (.single b.rule)) (.single c.rule)) rfl
  obtain ⟨_, _, hRight, hRightMerged⟩ :=
    hMerged (.pair (.single a.rule) (.pair (.single b.rule) (.single c.rule))) rfl
  cases hLeft
  cases hRight
  rw [hFirst] at hLeftMerged hRightMerged
  exact ⟨chunks, a.rule, b.rule, c.rule, _, hChunks, by rw [hParts]; rfl, rfl, hLeftMerged,
    hRightMerged, hWhole, hTables⟩

end Rule

end KeyRemap
