import KeyRemap.Proofs.Emission

/-!
# Lines inside of rules

Of the lines of a source only those that stand inside of a rule can fail. Each is compiled in the
rule that is open there and with the numbers that the lines before it have left. Reading ends at the
first of them that does not compile, with a report that points to it; until then no error is
reported.

* `Event.Quiet`: reports without errors.
* `Compiler.ruleLines`: the lines inside of rules, each with the rule and the numbering before it.
* `Compiler.mem_ruleLines`, `Compiler.namedLines_ruleLines`: where these lines stand in the sources,
  and which rules they belong to.
* `Compiler.readSources_ends`: how reading sources ends, in terms of these lines.
-/

namespace KeyRemap

/-! ## Reports without errors -/

/-- None of the reported facts is an error. -/
def Event.Quiet (events : List Event) : Prop :=
  ∀ event ∈ events, event.level ≠ .error

namespace Event.Quiet

theorem nil : Quiet [] := by
  intro event h
  cases h

theorem single (event : Event) (h : event.level ≠ .error) : Quiet [event] := by
  intro other hOther
  rw [List.mem_singleton.mp hOther]
  exact h

theorem append {first second : List Event} (h₁ : Quiet first) (h₂ : Quiet second) :
    Quiet (first ++ second) := by
  intro event hEvent
  rcases List.mem_append.mp hEvent with hEvent | hEvent
  · exact h₁ event hEvent
  · exact h₂ event hEvent

theorem outcome (rule : String) (outcome : LineOutcome) : Quiet (outcome.events rule) := by
  cases outcome with
  | operation op => exact single (.compiled rule op) (by simp [level])
  | guard => exact nil
  | passthrough => exact nil

theorem mergeEvents (first second : Rule) : Quiet (first.mergeEvents second) := by
  unfold Rule.mergeEvents
  split
  · exact nil
  · exact single (.mixedMerge first.name) (by simp [level])

theorem collectInto (rule : Rule) (rules : List Rule) :
    Quiet (Reading.collectInto rule rules).2 := by
  induction rules with
  | nil => exact nil
  | cons first rest ih =>
    unfold Reading.collectInto
    split
    · exact (single (.splitRule rule.name) (by simp [level])).append (mergeEvents first rule)
    · exact ih

theorem render {resolver : Resolver} {rule : Rule} {item : Rule.Rendered}
    (h : rule.render resolver = .ok item) : Quiet item.events := by
  unfold Rule.render at h
  split at h
  · cases h
    exact nil
  · split at h
    · cases h
    · cases h
      exact single _ (by simp [level])

theorem addEvents (registry : Registry) (entry : Registry.Entry) :
    Quiet (registry.addEvents entry) := by
  unfold Registry.addEvents
  split
  · exact single (.registeredAgain entry.name) (by simp [level])
  · exact nil

end Event.Quiet

theorem Reading.exists_events_close (reading : Reading) :
    ∃ logged, Event.Quiet logged ∧ reading.close.events = reading.events ++ logged := by
  unfold close
  split
  · exact ⟨[], .nil, (List.append_nil _).symm⟩
  · rename_i rule _
    exact ⟨_, .collectInto rule.finalize reading.rules, rfl⟩

/-! ## Lines inside of rules -/

/-- The error of a line names the rule that the line is in. -/
theorem Rule.rule_of_compileLine_error {resolver : Resolver} {line : String} {numbering : Numbering}
    {rule : Rule} {cause : CompileError}
    (h : (rule.compileLine resolver line numbering).outcome = .error cause) :
    cause.rule = rule.name := by
  have hCase := Rule.compileLine_case resolver line numbering rule
  generalize rule.compileLine resolver line numbering = step at hCase h
  cases hCase with
  | unknown =>
    cases h
    rfl
  | refused =>
    cases h
    rfl
  | _ => cases h

/-- A line inside of a rule, as the compilation meets it. -/
structure RuleLine where
  /-- The label of the source. -/
  label : String
  /-- The number of the line in its source, counted from one. -/
  number : Nat
  text : String
  /-- The rule that is open at the line, with what the lines before have brought. -/
  rule : Rule
  /-- The numbering that the lines before have left. -/
  numbering : Numbering

namespace RuleLine

def step (resolver : Resolver) (line : RuleLine) : LineStep :=
  line.rule.compileLine resolver line.text line.numbering

def Compiles (resolver : Resolver) (line : RuleLine) : Prop :=
  ∃ outcome, (line.step resolver).outcome = .ok outcome

/-- The line with the reason why it does not compile. -/
def fault? (resolver : Resolver) (line : RuleLine) : Option (RuleLine × CompileError) :=
  match (line.step resolver).outcome with
  | .ok _ => none
  | .error cause => some (line, cause)

theorem fault?_eq_none_iff {resolver : Resolver} {line : RuleLine} :
    line.fault? resolver = none ↔ line.Compiles resolver := by
  unfold fault? Compiles
  cases (line.step resolver).outcome <;> simp

theorem fault?_eq_some_iff {resolver : Resolver} {line found : RuleLine} {cause : CompileError} :
    line.fault? resolver = some (found, cause) ↔
      line = found ∧ (line.step resolver).outcome = .error cause := by
  unfold fault?
  cases (line.step resolver).outcome <;> simp

/-- The report about a line that does not compile. -/
def report (line : RuleLine) (cause : CompileError) : Event :=
  .lineFailed line.label line.number cause

theorem line_report (line : RuleLine) (cause : CompileError) :
    (line.report cause).line =
      "ERROR " ++ line.label ++ ":" ++ line.number.repr ++ ": " ++ cause.message := by
  have hLevel : "ERROR " = "ERROR" ++ " " := by decide
  unfold report Event.line Event.level Event.message Level.name
  rw [hLevel]
  simp only [String.append_assoc]

end RuleLine

/-- The lines of a part, each with the name of the part. -/
def Part.namedLines (part : Part) : List (String × String) :=
  part.lines.map fun text => (part.name, text)

namespace Compiler

/-- The lines inside of rules among those of a source from some line on, with the rule that is open
there, and the numbering after them. -/
def ruleLinesFrom (compiler : Compiler) (label : String) :
    Nat → List String → Option Rule → Numbering → List RuleLine × Numbering
  | _, [], _, numbering => ([], numbering)
  | number, text :: lines, opened, numbering =>
    match LineRole.of text, opened with
    | .header name, _ =>
      compiler.ruleLinesFrom label (number + 1) lines (some (.new name compiler.guards.fresh))
        numbering
    | .itemEnd, _ => compiler.ruleLinesFrom label (number + 1) lines none numbering
    | .content, none => compiler.ruleLinesFrom label (number + 1) lines none numbering
    | .content, some rule =>
      let line : RuleLine := { label, number, text, rule, numbering }
      let step := line.step compiler.resolver
      let (rest, after) :=
        compiler.ruleLinesFrom label (number + 1) lines (some step.rule) step.numbering
      (line :: rest, after)

/-- The lines inside of rules, in the order of sources and lines. -/
def ruleLines (compiler : Compiler) : List Source → Numbering → List RuleLine
  | [], _ => []
  | source :: sources, numbering =>
    let (lines, after) :=
      compiler.ruleLinesFrom source.label 1 (Text.lines source.text) none numbering
    lines ++ compiler.ruleLines sources after

theorem mem_ruleLinesFrom {compiler : Compiler} {label : String} {number : Nat}
    {lines : List String} {opened : Option Rule} {numbering : Numbering} {line : RuleLine}
    (h : line ∈ (compiler.ruleLinesFrom label number lines opened numbering).1) :
    line.label = label ∧ ∃ i, line.number = number + i ∧ lines[i]? = some line.text := by
  induction lines generalizing number opened numbering with
  | nil => cases h
  | cons text lines ih =>
    -- a line that comes later has an index of one more in the list with the first line
    have hLater : (∃ i, line.number = number + 1 + i ∧ lines[i]? = some line.text) →
        ∃ i, line.number = number + i ∧ (text :: lines)[i]? = some line.text := by
      rintro ⟨i, hNumber, hText⟩
      exact ⟨i + 1, by omega, hText⟩
    unfold ruleLinesFrom at h
    split at h
    · exact (ih h).imp id hLater
    · exact (ih h).imp id hLater
    · exact (ih h).imp id hLater
    · rcases List.mem_cons.mp h with rfl | h
      · exact ⟨rfl, 0, rfl, rfl⟩
      · exact (ih h).imp id hLater

/-- A line inside of a rule is the line of a source that its label and its number, which counts from
one, point to. -/
theorem mem_ruleLines {compiler : Compiler} {sources : List Source} {numbering : Numbering}
    {line : RuleLine} (h : line ∈ compiler.ruleLines sources numbering) :
    ∃ source ∈ sources, line.label = source.label ∧
      ∃ i, line.number = i + 1 ∧ (Text.lines source.text)[i]? = some line.text := by
  induction sources generalizing numbering with
  | nil => cases h
  | cons source sources ih =>
    rcases List.mem_append.mp h with h | h
    · obtain ⟨hLabel, i, hNumber, hText⟩ := mem_ruleLinesFrom h
      exact ⟨source, List.mem_cons_self, hLabel, i, by omega, hText⟩
    · obtain ⟨source, hSource, hLine⟩ := ih h
      exact ⟨source, List.mem_cons_of_mem _ hSource, hLine⟩

theorem namedLines_ruleLinesFrom (compiler : Compiler) (label : String) (number : Nat)
    (lines : List String) (opened : Option Rule) (numbering : Numbering) :
    ((compiler.ruleLinesFrom label number lines opened numbering).1.map fun line =>
      (line.rule.name, line.text)) =
      (opened.toList.flatMap fun rule =>
        (LineRole.contentOf lines).map fun text => (rule.name, text)) ++
      (Part.ofLines lines).flatMap Part.namedLines := by
  induction lines generalizing number opened numbering with
  | nil => simp [ruleLinesFrom, LineRole.contentOf, Part.ofLines]
  | cons text lines ih =>
    cases hRole : LineRole.of text with
    | header name =>
      have hContent : LineRole.contentOf (text :: lines) = [] := by
        simp [LineRole.contentOf, hRole]
      simp [ruleLinesFrom, Part.ofLines, hRole, hContent, ih, Rule.new, Part.namedLines]
    | itemEnd =>
      have hContent : LineRole.contentOf (text :: lines) = [] := by
        simp [LineRole.contentOf, hRole]
      simp [ruleLinesFrom, Part.ofLines, hRole, hContent, ih]
    | content =>
      have hContent : LineRole.contentOf (text :: lines) = text :: LineRole.contentOf lines := by
        simp [LineRole.contentOf, hRole]
      cases opened with
      | none => simp [ruleLinesFrom, Part.ofLines, hRole, ih]
      | some rule =>
        simp [ruleLinesFrom, Part.ofLines, hRole, hContent, ih, RuleLine.step,
          Rule.name_compileLine]

/-- The lines inside of rules are those of the parts of the sources, each in the rule of its
part. -/
theorem namedLines_ruleLines (compiler : Compiler) (sources : List Source)
    (numbering : Numbering) :
    ((compiler.ruleLines sources numbering).map fun line => (line.rule.name, line.text)) =
      (sources.flatMap Source.parts).flatMap Part.namedLines := by
  induction sources generalizing numbering with
  | nil => rfl
  | cons source sources ih =>
    simp only [ruleLines, List.map_append, ih, namedLines_ruleLinesFrom, List.flatMap_cons,
      List.flatMap_append]
    rfl

theorem ruleLines_compile_iff {compiler : Compiler} {lines : List RuleLine} :
    lines.findSome? (RuleLine.fault? compiler.resolver) = none ↔
      ∀ line ∈ lines, line.Compiles compiler.resolver := by
  simp only [List.findSome?_eq_none_iff, RuleLine.fault?_eq_none_iff]

theorem findSome?_fault? {compiler : Compiler} {before : List RuleLine} {line : RuleLine}
    {cause : CompileError}
    (hBefore : ∀ earlier ∈ before, earlier.Compiles compiler.resolver)
    (hLine : (line.step compiler.resolver).outcome = .error cause) (rest : List RuleLine) :
    (before ++ line :: rest).findSome? (RuleLine.fault? compiler.resolver) =
      some (line, cause) := by
  rw [List.findSome?_append, ruleLines_compile_iff.mpr hBefore, Option.none_or,
    List.findSome?_cons, RuleLine.fault?_eq_some_iff.mpr ⟨rfl, hLine⟩]

/-- How a reading of lines ends: with the first line that does not compile, which is reported last,
or without error and at a given numbering. -/
def Ends (compiler : Compiler) (lines : List RuleLine) (after : Numbering) (reading : Reading) :
    EStateM.Result CompileError Reading Unit → Prop
  | .ok () reading' =>
    lines.findSome? (RuleLine.fault? compiler.resolver) = none ∧
    reading'.opened = none ∧ reading'.numbering = after ∧
    ∃ logged, Event.Quiet logged ∧ reading'.events = reading.events ++ logged
  | .error cause reading' =>
    ∃ line logged, lines.findSome? (RuleLine.fault? compiler.resolver) = some (line, cause) ∧
      Event.Quiet logged ∧ reading'.events = reading.events ++ logged ++ [line.report cause]

/-- What is reported without error before a reading goes in front of what it reports. -/
theorem Ends.of_events {compiler : Compiler} {lines : List RuleLine} {after : Numbering}
    {reading middle : Reading} {result : EStateM.Result CompileError Reading Unit}
    (h : compiler.Ends lines after middle result) {logged : List Event}
    (hQuiet : Event.Quiet logged) (hEvents : middle.events = reading.events ++ logged) :
    compiler.Ends lines after reading result := by
  cases result with
  | ok _ reading' =>
    obtain ⟨hNone, hOpened, hAfter, more, hMore, hLater⟩ := h
    refine ⟨hNone, hOpened, hAfter, logged ++ more, hQuiet.append hMore, ?_⟩
    rw [hLater, hEvents, List.append_assoc]
  | error cause reading' =>
    obtain ⟨line, more, hSome, hMore, hLater⟩ := h
    refine ⟨line, logged ++ more, hSome, hQuiet.append hMore, ?_⟩
    rw [hLater, hEvents, List.append_assoc reading.events]

/-- Lines that all compile do not change how a reading ends. -/
theorem Ends.append {compiler : Compiler} {lines rest : List RuleLine} {after : Numbering}
    {reading : Reading} {result : EStateM.Result CompileError Reading Unit}
    (h : compiler.Ends rest after reading result)
    (hLines : lines.findSome? (RuleLine.fault? compiler.resolver) = none) :
    compiler.Ends (lines ++ rest) after reading result := by
  cases result with
  | ok _ reading' => simpa only [Ends, List.findSome?_append, hLines, Option.none_or] using h
  | error cause reading' =>
    simpa only [Ends, List.findSome?_append, hLines, Option.none_or] using h

/-- Reading the lines of a source to the end goes through the lines inside of rules. The induction
is on the lines, with the rule that is open carried along; each role of a line is one case. -/
theorem readToEnd_ends (compiler : Compiler) (label : String) (number : Nat)
    (lines : List String) (reading : Reading) :
    compiler.Ends
      (compiler.ruleLinesFrom label number lines reading.opened reading.numbering).1
      (compiler.ruleLinesFrom label number lines reading.opened reading.numbering).2 reading
      (compiler.readToEnd label number lines reading) := by
  induction lines generalizing number reading with
  | nil =>
    rw [readToEnd_nil]
    exact ⟨rfl, reading.opened_close, reading.numbering_close, reading.exists_events_close⟩
  | cons text lines ih =>
    obtain ⟨logged, hQuiet, hClose⟩ := reading.exists_events_close
    rw [readToEnd_cons]
    cases hRole : LineRole.of text with
    | header name =>
      have hRest := ih (number + 1)
        { reading.close with opened := some (.new name compiler.guards.fresh) }
      simp only [readLine, hRole, ruleLinesFrom, reading.numbering_close] at hRest ⊢
      exact hRest.of_events hQuiet hClose
    | itemEnd =>
      simp only [readLine, hRole, ruleLinesFrom]
      have hRest := ih (number + 1) reading.close
      rw [reading.opened_close, reading.numbering_close] at hRest
      exact hRest.of_events hQuiet hClose
    | content =>
      cases hOpened : reading.opened with
      | none =>
        simp only [readLine, hRole, hOpened, ruleLinesFrom]
        have hRest := ih (number + 1) reading
        rwa [hOpened] at hRest
      | some rule =>
        let line : RuleLine := { label, number, text, rule, numbering := reading.numbering }
        simp only [readLine, hRole, hOpened, ruleLinesFrom]
        cases hOutcome : (line.step compiler.resolver).outcome with
        | error cause =>
          have hFault : line.fault? compiler.resolver = some (line, cause) :=
            RuleLine.fault?_eq_some_iff.mpr ⟨rfl, hOutcome⟩
          simp only [RuleLine.step, line] at hOutcome
          simp only [hOutcome]
          refine ⟨line, [], ?_, .nil, ?_⟩
          · rw [List.findSome?_cons, hFault]
          · rw [List.append_nil]
            rfl
        | ok outcome =>
          have hLine : [line].findSome? (RuleLine.fault? compiler.resolver) = none := by
            rw [List.findSome?_singleton, RuleLine.fault?_eq_none_iff]
            exact ⟨outcome, hOutcome⟩
          simp only [RuleLine.step, line] at hOutcome
          simp only [hOutcome]
          have hRest := ih (number + 1)
            (({ reading with
                opened := some (line.step compiler.resolver).rule
                numbering := (line.step compiler.resolver).numbering } : Reading).report
              (outcome.events rule.name))
          exact (hRest.of_events (.outcome rule.name outcome) rfl).append hLine

/-- Reading sources goes through the lines inside of rules. -/
theorem readSources_ends (compiler : Compiler) (sources : List Source) (reading : Reading)
    (hOpened : reading.opened = none) :
    ∃ after, compiler.Ends (compiler.ruleLines sources reading.numbering) after reading
      (compiler.readSources sources reading) := by
  induction sources generalizing reading with
  | nil =>
    exact ⟨reading.numbering, rfl, hOpened, rfl, [], .nil, (List.append_nil _).symm⟩
  | cons source sources ih =>
    have hFirst : compiler.Ends _ _ reading (compiler.readSource source reading) :=
      compiler.readToEnd_ends source.label 1 (Text.lines source.text) reading
    rw [hOpened] at hFirst
    simp only [readSources, ruleLines, bind, EStateM.bind]
    cases hRun : compiler.readSource source reading with
    | error cause reading' =>
      rw [hRun] at hFirst
      obtain ⟨line, logged, hSome, hRest⟩ := hFirst
      refine ⟨reading.numbering, line, logged, ?_, hRest⟩
      rw [List.findSome?_append, hSome, Option.some_or]
    | ok _ reading' =>
      rw [hRun] at hFirst
      obtain ⟨hNone, hClosed, hNumbering, logged, hQuiet, hEvents⟩ := hFirst
      obtain ⟨after, hRest⟩ := ih reading' hClosed
      rw [hNumbering] at hRest
      exact ⟨after, (hRest.of_events hQuiet hEvents).append hNone⟩

end Compiler

end KeyRemap
