import KeyRemap.Proofs.Line
import KeyRemap.Source

/-!
# Parts of sources

Sources are read line by line, with a rule that may be open. The same comes out when the lines are
first cut into parts and the parts are compiled one after the other: a part is a header with the
lines up to the next header, `</item>` line or end of the source. Lines outside of parts count for
nothing.

* `Part.ofLines`: the cut.
* `Compiler.collectParts`: compiling parts one after the other, each collected when it is done.
* `Compiler.readSources_outcome`: reading sources is collecting their parts, in success and failure.
-/

namespace KeyRemap

/-! ## Cutting sources into parts -/

/-- The name of a header and the lines that belong to it. -/
structure Part where
  name : String
  lines : List String
  deriving DecidableEq, Repr

/-- The lines that belong to a header before them: all up to the next header or `</item>` line. -/
def LineRole.contentOf (lines : List String) : List String :=
  lines.takeWhile fun line => of line = content

/-- The parts among the lines of a source. -/
def Part.ofLines : List String → List Part
  | [] => []
  | line :: lines =>
    match LineRole.of line with
    | .header name => { name, lines := LineRole.contentOf lines } :: ofLines lines
    | .itemEnd => ofLines lines
    | .content => ofLines lines

def Source.parts (source : Source) : List Part :=
  Part.ofLines (Text.lines source.text)

/-! ## Compiling parts -/

/-- A rule with more lines, and the numbering after them. -/
def Rule.compileLines (resolver : Resolver) :
    List String → Numbering → Rule → Except CompileError (Rule × Numbering)
  | [], numbering, rule => .ok (rule, numbering)
  | line :: lines, numbering, rule =>
    let step := rule.compileLine resolver line numbering
    match step.outcome with
    | .error cause => .error cause
    | .ok _ => step.rule.compileLines resolver lines step.numbering

/-- What holds of a rule and the numbering, and still holds after one more line, holds at the
end. -/
theorem Rule.compileLines_induction {resolver : Resolver} {P : Rule → Numbering → Prop}
    (hStep : ∀ {rule : Rule} {numbering : Numbering} (line : String), P rule numbering →
      P (rule.compileLine resolver line numbering).rule
        (rule.compileLine resolver line numbering).numbering)
    {lines : List String} {rule rule' : Rule} {numbering after : Numbering}
    (hStart : P rule numbering)
    (hRun : rule.compileLines resolver lines numbering = .ok (rule', after)) : P rule' after := by
  induction lines generalizing rule numbering with
  | nil =>
    cases hRun
    exact hStart
  | cons line lines ih =>
    simp only [compileLines] at hRun
    split at hRun
    · cases hRun
    · exact ih (hStep line hStart) hRun

/-- The rules with one more part, which is closed first. -/
def Reading.collect (rules : List Rule) (part : Rule) : List Rule :=
  (collectInto part.finalize rules).1

namespace Compiler

/-- A part compiled as a rule of its own, not closed yet. -/
def compilePart (compiler : Compiler) (part : Part) (numbering : Numbering) :
    Except CompileError (Rule × Numbering) :=
  (Rule.new part.name compiler.guards.fresh).compileLines compiler.resolver part.lines numbering

/-- The rules after some parts, each compiled and collected in turn. -/
def collectParts (compiler : Compiler) :
    List Part → List Rule → Numbering → Except CompileError (List Rule × Numbering)
  | [], rules, numbering => .ok (rules, numbering)
  | part :: parts, rules, numbering =>
    match compiler.compilePart part numbering with
    | .error cause => .error cause
    | .ok (rule, numbering) => compiler.collectParts parts (Reading.collect rules rule) numbering

theorem collectParts_append (compiler : Compiler) (first second : List Part) (rules : List Rule)
    (numbering : Numbering) :
    compiler.collectParts (first ++ second) rules numbering =
      match compiler.collectParts first rules numbering with
      | .error cause => .error cause
      | .ok (rules, numbering) => compiler.collectParts second rules numbering := by
  induction first generalizing rules numbering with
  | nil => rfl
  | cons part first ih =>
    simp only [List.cons_append, collectParts]
    cases compiler.compilePart part numbering with
    | error cause => rfl
    | ok compiled => exact ih _ _

theorem exists_of_collectParts_cons {compiler : Compiler} {part : Part} {parts : List Part}
    {rules rules' : List Rule} {numbering after : Numbering}
    (hRun : compiler.collectParts (part :: parts) rules numbering = .ok (rules', after)) :
    ∃ rule middle, compiler.compilePart part numbering = .ok (rule, middle) ∧
      compiler.collectParts parts (Reading.collect rules rule) middle = .ok (rules', after) := by
  simp only [collectParts] at hRun
  split at hRun
  · cases hRun
  · rename_i rule middle hPart
    exact ⟨rule, middle, hPart, hRun⟩

/-- What holds of rules and numbering, and still holds after one more part, holds at the end. -/
theorem collectParts_induction {compiler : Compiler} {P : List Rule → Numbering → Prop}
    (hStep : ∀ {rules : List Rule} {numbering after : Numbering} {part : Part} {rule : Rule},
      P rules numbering → compiler.compilePart part numbering = .ok (rule, after) →
        P (Reading.collect rules rule) after)
    {parts : List Part} {rules rules' : List Rule} {numbering after : Numbering}
    (hStart : P rules numbering)
    (hRun : compiler.collectParts parts rules numbering = .ok (rules', after)) :
    P rules' after := by
  induction parts generalizing rules numbering with
  | nil =>
    cases hRun
    exact hStart
  | cons part parts ih =>
    obtain ⟨rule, middle, hPart, hRest⟩ := exists_of_collectParts_cons hRun
    exact ih (hStep hStart hPart) hRest

end Compiler

/-! ## Reading line by line -/

namespace Reading

/-- The rules and the numbering that a reading has come to, or why it failed. -/
def outcome : EStateM.Result CompileError Reading Unit → Except CompileError (List Rule × Numbering)
  | .ok () reading => .ok (reading.rules, reading.numbering)
  | .error cause _ => .error cause

theorem opened_close (reading : Reading) : reading.close.opened = none := by
  unfold close
  split
  · assumption
  · rfl

theorem numbering_close (reading : Reading) : reading.close.numbering = reading.numbering := by
  unfold close
  split <;> rfl

theorem rules_close_of_none {reading : Reading} (h : reading.opened = none) :
    reading.close.rules = reading.rules := by
  simp only [close, h]

theorem rules_close_of_some {reading : Reading} {rule : Rule} (h : reading.opened = some rule) :
    reading.close.rules = collect reading.rules rule := by
  simp only [close, h, collect]

end Reading

namespace Compiler

/-- What is left to do at some lines: the open rule takes those that belong to it and is collected,
then the parts among the lines follow. -/
def resume (compiler : Compiler) (lines : List String) (reading : Reading) :
    Except CompileError (List Rule × Numbering) :=
  match reading.opened with
  | none => compiler.collectParts (Part.ofLines lines) reading.rules reading.numbering
  | some rule =>
    match rule.compileLines compiler.resolver (LineRole.contentOf lines) reading.numbering with
    | .error cause => .error cause
    | .ok (rule, numbering) =>
      compiler.collectParts (Part.ofLines lines) (Reading.collect reading.rules rule) numbering

/-- Reads lines and closes the rule that is open at the end. -/
def readToEnd (compiler : Compiler) (label : String) (number : Nat) (lines : List String) :
    EStateM CompileError Reading Unit := do
  compiler.readLines label number lines
  modify Reading.close

theorem readToEnd_nil (compiler : Compiler) (label : String) (number : Nat) (reading : Reading) :
    compiler.readToEnd label number [] reading = .ok () reading.close :=
  rfl

theorem readToEnd_cons (compiler : Compiler) (label : String) (number : Nat) (line : String)
    (lines : List String) (reading : Reading) :
    compiler.readToEnd label number (line :: lines) reading =
      match compiler.readLine label number line reading with
      | .error cause reading => .error cause reading
      | .ok () reading => compiler.readToEnd label (number + 1) lines reading := by
  simp only [readToEnd, readLines, bind, EStateM.bind]
  cases compiler.readLine label number line reading <;> rfl

/-- Where nothing of the lines belongs to the open rule, it is closed as things stand. -/
theorem resume_of_contentOf_eq_nil {compiler : Compiler} {lines : List String}
    (h : LineRole.contentOf lines = []) (reading : Reading) :
    compiler.resume lines reading =
      compiler.collectParts (Part.ofLines lines) reading.close.rules reading.numbering := by
  unfold resume
  cases hOpened : reading.opened with
  | none => rw [Reading.rules_close_of_none hOpened]
  | some rule =>
    rw [Reading.rules_close_of_some hOpened, h]
    rfl

/-- Reading line by line does what is left to do at the lines. The induction is on the lines, with
the rule that is open carried along; each role of a line is one case. -/
theorem readToEnd_outcome (compiler : Compiler) (label : String) (number : Nat)
    (lines : List String) (reading : Reading) :
    Reading.outcome (compiler.readToEnd label number lines reading) =
      compiler.resume lines reading := by
  induction lines generalizing number reading with
  | nil =>
    rw [readToEnd_nil, resume_of_contentOf_eq_nil rfl]
    simp only [Reading.outcome, Part.ofLines, collectParts, Reading.numbering_close]
  | cons line lines ih =>
    rw [readToEnd_cons]
    cases hRole : LineRole.of line with
    | header name =>
      have hContent : LineRole.contentOf (line :: lines) = [] := by
        simp [LineRole.contentOf, hRole]
      rw [resume_of_contentOf_eq_nil hContent]
      simp only [readLine, hRole, ih, resume, Part.ofLines, collectParts, compilePart,
        Reading.numbering_close]
    | itemEnd =>
      have hContent : LineRole.contentOf (line :: lines) = [] := by
        simp [LineRole.contentOf, hRole]
      rw [resume_of_contentOf_eq_nil hContent]
      simp only [readLine, hRole, ih, resume, Reading.opened_close, Part.ofLines,
        Reading.numbering_close]
    | content =>
      have hContent : LineRole.contentOf (line :: lines) = line :: LineRole.contentOf lines := by
        simp [LineRole.contentOf, hRole]
      cases hOpened : reading.opened with
      | none => simp only [readLine, hRole, hOpened, ih, resume, Part.ofLines]
      | some rule =>
        simp only [readLine, hRole, hOpened, resume, hContent, Rule.compileLines, Part.ofLines]
        cases (rule.compileLine compiler.resolver line reading.numbering).outcome with
        | error cause => rfl
        | ok outcome =>
          simp only [ih]
          rfl

/-- Reading sources is collecting their parts, in success and failure. -/
theorem readSources_outcome (compiler : Compiler) (sources : List Source) (reading : Reading)
    (h : reading.opened = none) :
    Reading.outcome (compiler.readSources sources reading) =
      compiler.collectParts (sources.flatMap Source.parts) reading.rules reading.numbering := by
  induction sources generalizing reading with
  | nil => rfl
  | cons source sources ih =>
    have hSource : Reading.outcome (compiler.readSource source reading) =
        compiler.collectParts source.parts reading.rules reading.numbering := by
      have hEnd := compiler.readToEnd_outcome source.label 1 (Text.lines source.text) reading
      simp only [resume, h] at hEnd
      exact hEnd
    have hClosed : ∀ after, compiler.readSource source reading = .ok () after →
        after.opened = none := by
      intro after hAfter
      simp only [readSource, bind, EStateM.bind] at hAfter
      split at hAfter
      · cases hAfter
        exact Reading.opened_close _
      · cases hAfter
    rw [List.flatMap_cons, collectParts_append, ← hSource]
    simp only [readSources, bind, EStateM.bind]
    cases hRun : compiler.readSource source reading with
    | error cause after => rfl
    | ok _ after =>
      simp only [Reading.outcome]
      exact ih after (hClosed after hRun)

/-- Sources that are read to the end have their parts collected. -/
theorem collectParts_of_readSources {compiler : Compiler} {sources : List Source}
    {numbering : Numbering} {reading : Reading}
    (hRun : compiler.readSources sources { numbering } = .ok () reading) :
    compiler.collectParts (sources.flatMap Source.parts) [] numbering =
      .ok (reading.rules, reading.numbering) := by
  have hOutcome := compiler.readSources_outcome sources { numbering } rfl
  rw [hRun] at hOutcome
  exact hOutcome.symm

end Compiler

end KeyRemap
