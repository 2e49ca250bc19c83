import KeyRemap.Compilation
import KeyRemap.Proofs.Dispatch

/-!
# The boundary between two sources

The end of a source does to the rules what an `</item>` line does. So two sources that follow one
another can be joined into one with an `</item>` line in between, if the first one does not stop in
the middle of a line: the unit, or the error, and the numbering and registry behind it stay the
same. Only the place of a failed line is reported differently, since labels and line numbers are
those of the joined source.

* `Text.lines_append`: the lines of texts one behind the other.
* `Compiler.readSources_alike`: labels matter for the places of failed lines alone.
* `Compiler.readSources_alike_of_joined`: reading two sources or the joined one.
* `Compiler.compileUnit_of_joined`: compiling a unit with the two sources or with the joined one.
-/

namespace KeyRemap

/-! ## Lines of texts one behind the other -/

namespace Text

/-- Empty, or with a newline at the end. -/
def EndsLine (text : String) : Prop :=
  text = "" ∨ ∃ before, text = before ++ "\n"

theorem lines_append_newline (before rest : String) :
    lines (before ++ "\n" ++ rest) =
      ((before.toList.splitOn '\n').map dropReturn).map String.ofList ++ lines rest := by
  have hChars : (before ++ "\n" ++ rest).toList = before.toList ++ '\n' :: rest.toList := by
    simp
  have hRest : rest.toList.splitOn '\n' ≠ [] := List.splitOn_ne_nil _ _
  simp only [lines, hChars, List.splitOn_append_cons_self, List.dropLast_append_of_ne_nil hRest,
    List.getLast?_append, List.getLast?_eq_some_getLast hRest, Option.some_or, List.map_append,
    List.append_assoc]

theorem lines_append {text : String} (h : EndsLine text) (rest : String) :
    lines (text ++ rest) = lines text ++ lines rest := by
  rcases h with rfl | ⟨before, rfl⟩
  · rw [String.empty_append]
    rfl
  · have hAlone := lines_append_newline before ""
    rw [String.append_empty] at hAlone
    rw [lines_append_newline, hAlone]
    simp [lines]

end Text

/-! ## Readings but for the places of failed lines -/

/-- A report without the place at which a line failed. -/
def Event.unplaced : Event → Event
  | lineFailed _ _ cause => lineFailed "" 0 cause
  | event => event

/-- How a run has ended, with a view of the state it has left. -/
def ending {ε σ α τ : Type} (view : σ → τ) : EStateM.Result ε σ α → Except ε α × τ
  | .ok value state => (.ok value, view state)
  | .error cause state => (.error cause, view state)

theorem ending_eq_cases {ε σ α τ : Type} {view : σ → τ} {first second : EStateM.Result ε σ α}
    (h : ending view first = ending view second) :
    (∃ value state other, first = .ok value state ∧ second = .ok value other ∧
      view state = view other) ∨
    ∃ cause state other, first = .error cause state ∧ second = .error cause other ∧
      view state = view other := by
  cases first with
  | ok value state =>
    cases second with
    | ok value' other =>
      simp only [ending, Prod.mk.injEq, Except.ok.injEq] at h
      exact .inl ⟨value, state, other, rfl, by rw [h.1], h.2⟩
    | error cause' other => simp [ending] at h
  | error cause state =>
    cases second with
    | ok value' other => simp [ending] at h
    | error cause' other =>
      simp only [ending, Prod.mk.injEq, Except.error.injEq] at h
      exact .inr ⟨cause, state, other, rfl, by rw [h.1], h.2⟩

namespace Reading

def unplaced (reading : Reading) : Reading :=
  { reading with events := reading.events.map Event.unplaced }

theorem unplaced_eq_iff {first second : Reading} :
    first.unplaced = second.unplaced ↔
      first.numbering = second.numbering ∧ first.rules = second.rules ∧
      first.opened = second.opened ∧
      first.events.map Event.unplaced = second.events.map Event.unplaced := by
  cases first
  cases second
  simp only [unplaced, mk.injEq]

theorem unplaced_close {first second : Reading} (h : first.unplaced = second.unplaced) :
    first.close.unplaced = second.close.unplaced := by
  obtain ⟨hNumbering, hRules, hOpened, hEvents⟩ := unplaced_eq_iff.mp h
  cases hRule : second.opened with
  | none => simpa only [close, hOpened, hRule] using h
  | some rule =>
    simp only [close, hOpened, hRule, hRules, unplaced_eq_iff, List.map_append, hEvents, hNumbering,
      and_self]

/-- Two ways to go on that end alike from alike readings. -/
def Alike (first second : EStateM CompileError Reading Unit) : Prop :=
  ∀ reading other : Reading, reading.unplaced = other.unplaced →
    ending unplaced (first reading) = ending unplaced (second other)

namespace Alike

theorem done : Alike (pure ()) (pure ()) := by
  intro reading other h
  exact Prod.ext rfl h

theorem closing : Alike (modify close) (modify close) := by
  intro reading other h
  exact Prod.ext rfl (unplaced_close h)

theorem andThen {first second first' second' : EStateM CompileError Reading Unit}
    (h : Alike first second) (h' : Alike first' second') :
    Alike (do first; first') (do second; second') := by
  intro reading other hReading
  simp only [bind, EStateM.bind]
  obtain ⟨_, middle, middle', hFirst, hSecond, hMiddle⟩ |
      ⟨cause, middle, middle', hFirst, hSecond, hMiddle⟩ :=
    ending_eq_cases (h reading other hReading)
  · rw [hFirst, hSecond]
    exact h' middle middle' hMiddle
  · rw [hFirst, hSecond]
    exact Prod.ext rfl hMiddle

end Alike

end Reading

namespace Compiler

open Reading

/-- A line does the same wherever it stands. -/
theorem readLine_alike (compiler : Compiler) {label label' : String} {number number' : Nat}
    (line : String) :
    Alike (compiler.readLine label number line) (compiler.readLine label' number' line) := by
  intro reading other h
  obtain ⟨hNumbering, hRules, hOpened, hEvents⟩ := unplaced_eq_iff.mp h
  cases hRole : LineRole.of line with
  | header name =>
    obtain ⟨hNumbering', hRules', _, hEvents'⟩ := unplaced_eq_iff.mp (unplaced_close h)
    simp only [readLine, hRole, ending, Prod.mk.injEq, true_and, unplaced_eq_iff]
    exact ⟨hNumbering', hRules', hEvents'⟩
  | itemEnd =>
    simp only [readLine, hRole, ending, unplaced_close h]
  | content =>
    cases hRule : other.opened with
    | none => simp only [readLine, hRole, hOpened, hRule, ending, h]
    | some rule =>
      simp only [readLine, hRole, hOpened, hRule, hNumbering]
      cases (rule.compileLine compiler.resolver line other.numbering).outcome with
      | ok outcome =>
        simp only [ending, Prod.mk.injEq, unplaced_eq_iff, report, List.map_append,
          hEvents, hRules, and_self]
      | error cause =>
        simp only [ending, Prod.mk.injEq, unplaced_eq_iff, report, List.map_append,
          hEvents, hRules, List.map_cons, Event.unplaced, and_self]

theorem readLines_alike (compiler : Compiler) {label label' : String} {number number' : Nat}
    (lines : List String) :
    Alike (compiler.readLines label number lines) (compiler.readLines label' number' lines) := by
  induction lines generalizing number number' with
  | nil => exact .done
  | cons line lines ih => exact (compiler.readLine_alike line).andThen ih

theorem readSource_alike (compiler : Compiler) {source other : Source}
    (h : source.text = other.text) :
    Alike (compiler.readSource source) (compiler.readSource other) := by
  simp only [readSource, h]
  exact (compiler.readLines_alike _).andThen .closing

/-- Sources with the same texts are read alike, whatever their labels. -/
theorem readSources_alike (compiler : Compiler) {sources others : List Source}
    (h : sources.map Source.text = others.map Source.text) :
    Alike (compiler.readSources sources) (compiler.readSources others) := by
  induction sources generalizing others with
  | nil =>
    rw [List.map_eq_nil_iff.mp h.symm]
    exact .done
  | cons source sources ih =>
    obtain ⟨other, others, rfl, hText, hTexts⟩ := List.map_eq_cons_iff.mp h.symm
    exact (compiler.readSource_alike hText.symm).andThen (ih hTexts.symm)

/-! ## The end of a source as a line -/

theorem readLines_append (compiler : Compiler) (label : String) (number : Nat)
    (first second : List String) :
    compiler.readLines label number (first ++ second) =
      (do compiler.readLines label number first
          compiler.readLines label (number + first.length) second) := by
  induction first generalizing number with
  | nil => rfl
  | cons line first ih =>
    simp only [List.cons_append, readLines, ih, bind_assoc, List.length_cons]
    rw [Nat.add_assoc, Nat.add_comm 1]

theorem readSources_append (compiler : Compiler) (first second : List Source) :
    compiler.readSources (first ++ second) =
      (do compiler.readSources first
          compiler.readSources second) := by
  induction first with
  | nil => rfl
  | cons source first ih => simp only [List.cons_append, readSources, ih, bind_assoc]

theorem readLine_item_end (compiler : Compiler) (label : String) (number : Nat) :
    compiler.readLine label number "</item>" = modify Reading.close := by
  have hRole : LineRole.of "</item>" = .itemEnd := by decide +kernel
  funext reading
  simp only [readLine, hRole]
  rfl

/-- Two sources, or one with an `</item>` line between their texts. -/
theorem readSource_alike_of_joined (compiler : Compiler) {first second joined : Source}
    (hFirst : Text.EndsLine first.text)
    (hJoined : joined.text = first.text ++ "</item>\n" ++ second.text) :
    Alike (do compiler.readSource first; compiler.readSource second)
      (compiler.readSource joined) := by
  have hLines : Text.lines joined.text =
      Text.lines first.text ++ "</item>" :: Text.lines second.text := by
    have hItem : Text.EndsLine "</item>\n" := .inr ⟨"</item>", rfl⟩
    have hAlone : Text.lines "</item>\n" = ["</item>"] := by decide +kernel
    rw [hJoined, String.append_assoc, Text.lines_append hFirst, Text.lines_append hItem, hAlone]
    rfl
  have hRead : compiler.readSource joined =
      ((do compiler.readLines joined.label 1 (Text.lines first.text)
           modify Reading.close) >>= fun _ =>
        do compiler.readLines joined.label (1 + (Text.lines first.text).length + 1)
             (Text.lines second.text)
           modify Reading.close) := by
    simp only [readSource, hLines, readLines_append, readLines, readLine_item_end, bind_assoc]
  -- Both sides read the same two stretches and close after each; labels and numbers differ.
  rw [hRead]
  exact ((compiler.readLines_alike _).andThen .closing).andThen
    ((compiler.readLines_alike _).andThen .closing)

theorem readSources_alike_of_joined (compiler : Compiler) {sources joined : List Source}
    {before later : List String} {first second : String} (hFirst : Text.EndsLine first)
    (hSources : sources.map Source.text = before ++ [first, second] ++ later)
    (hJoined : joined.map Source.text = before ++ [first ++ "</item>\n" ++ second] ++ later) :
    Alike (compiler.readSources sources) (compiler.readSources joined) := by
  -- The labels are made explicit by cutting both lists where their texts are cut.
  rw [List.append_assoc] at hSources hJoined
  obtain ⟨sourcesBefore, sourcesRest, rfl, hBefore, hRest⟩ := List.map_eq_append_iff.mp hSources
  obtain ⟨joinedBefore, joinedRest, rfl, hBefore', hRest'⟩ := List.map_eq_append_iff.mp hJoined
  obtain ⟨firstSource, _, rfl, rfl, hSecond⟩ := List.map_eq_cons_iff.mp hRest
  obtain ⟨secondSource, sourcesLater, rfl, rfl, hLater⟩ := List.map_eq_cons_iff.mp hSecond
  obtain ⟨joinedSource, joinedLater, rfl, hText, hLater'⟩ := List.map_eq_cons_iff.mp hRest'
  simp only [readSources_append, readSources]
  rw [← bind_assoc (compiler.readSource firstSource)]
  exact (compiler.readSources_alike (hBefore.trans hBefore'.symm)).andThen
    ((compiler.readSource_alike_of_joined hFirst hText).andThen
      (compiler.readSources_alike (hLater.trans hLater'.symm)))

end Compiler

/-! ## Compiling across a boundary -/

def Workbench.unplaced (bench : Workbench) : Workbench :=
  { bench with events := bench.events.map Event.unplaced }

namespace Compiler

/-- Units with sources that are read alike are compiled alike. -/
theorem compileUnit_of_alike {compiler : Compiler} {sources others : List Source}
    (h : Reading.Alike (compiler.readSources sources) (compiler.readSources others))
    (name : String) (bench : Workbench) :
    ending Workbench.unplaced (compiler.compileUnit ⟨name, sources⟩ bench) =
      ending Workbench.unplaced (compiler.compileUnit ⟨name, others⟩ bench) := by
  have hEnding := h { numbering := bench.numbering } { numbering := bench.numbering } rfl
  unfold compileUnit
  obtain ⟨_, reading, other, hRead, hOther, hView⟩ |
      ⟨cause, reading, other, hRead, hOther, hView⟩ :=
    ending_eq_cases hEnding
  · obtain ⟨hNumbering, hRules, _, hEvents⟩ := Reading.unplaced_eq_iff.mp hView
    simp only [hRead, hOther, hRules, hNumbering]
    cases compiler.emitRules other.rules { registry := bench.registry } <;>
      simp only [ending, Workbench.unplaced, List.map_append, hEvents]
  · obtain ⟨hNumbering, _, _, hEvents⟩ := Reading.unplaced_eq_iff.mp hView
    simp only [hRead, hOther, ending, Workbench.unplaced, hNumbering, List.map_append, hEvents]

/-- **The end of a source is an `</item>` line.** Two sources one behind the other, the first of
which does not stop in the middle of a line, can be joined into one with an `</item>` line in
between. Whatever comes before and after them and whatever the labels are, the unit is the same or
the error is the same, the numbering and the registry are left the same, and the reports differ in
the place of a failed line alone. -/
theorem compileUnit_of_joined (compiler : Compiler) (name : String) (bench : Workbench)
    {sources joined : List Source} {before later : List String} {first second : String}
    (hFirst : Text.EndsLine first)
    (hSources : sources.map Source.text = before ++ [first, second] ++ later)
    (hJoined : joined.map Source.text = before ++ [first ++ "</item>\n" ++ second] ++ later) :
    ending Workbench.unplaced (compiler.compileUnit ⟨name, sources⟩ bench) =
      ending Workbench.unplaced (compiler.compileUnit ⟨name, joined⟩ bench) :=
  compileUnit_of_alike (compiler.readSources_alike_of_joined hFirst hSources hJoined) name bench

/-- A rule that is open at the boundary and opened again behind it, on a workbench that has been
used: its two parts are one rule also in the joined source. -/
theorem compileUnit_of_joined_open_rule :
    ∃ compiler first second sources joined bench unit after,
      compiler = ({ resolver := .constant 7 } : Compiler) ∧
      first = "<identifier>a</identifier>\n<only>A</only>\n" ++
        "<autogen>--KeyToKey-- KeyCode::A</autogen>\n" ∧
      second = "<identifier>a</identifier>\n<autogen>--KeyToKey-- KeyCode::A</autogen>" ∧
      sources = ([⟨"1", first⟩, ⟨"2", second⟩, ⟨"3", "<identifier>b</identifier>"⟩] :
        List Source) ∧
      joined = ([⟨"12", first ++ "</item>\n" ++ second⟩, ⟨"0", "<identifier>b</identifier>"⟩] :
        List Source) ∧
      bench = { numbering := ⟨2, 1⟩ } ∧
      compiler.compileUnit ⟨"u", joined⟩ bench = .ok unit after ∧
      unit.rules = ["a", "b"] ∧ unit.slotCount = 4 ∧ after.numbering = ⟨4, 1⟩ ∧
      after.registry.entries.map (·.name) = ["a", "b"] := by
  obtain ⟨compiler, hCompiler⟩ : ∃ compiler : Compiler, compiler = { resolver := .constant 7 } :=
    ⟨_, rfl⟩
  obtain ⟨first, hFirst⟩ : ∃ first : String, first =
      "<identifier>a</identifier>\n<only>A</only>\n" ++
        "<autogen>--KeyToKey-- KeyCode::A</autogen>\n" :=
    ⟨_, rfl⟩
  obtain ⟨second, hSecond⟩ : ∃ second : String, second =
      "<identifier>a</identifier>\n<autogen>--KeyToKey-- KeyCode::A</autogen>" :=
    ⟨_, rfl⟩
  obtain ⟨bench, hBench⟩ : ∃ bench : Workbench, bench = { numbering := ⟨2, 1⟩ } := ⟨_, rfl⟩
  have hFacts : (match compiler.compileUnit ⟨"u", [⟨"1", first⟩, ⟨"2", second⟩,
        ⟨"3", "<identifier>b</identifier>"⟩]⟩ bench with
      | .error _ _ => none
      | .ok unit after =>
        some (unit.rules, unit.slotCount, after.numbering,
          after.registry.entries.map (·.name))) =
      some (["a", "b"], 4, ⟨4, 1⟩, ["a", "b"]) := by
    subst hCompiler hFirst hSecond hBench
    decide +kernel
  have hEnds : Text.EndsLine first :=
    .inr ⟨"<identifier>a</identifier>\n<only>A</only>\n" ++
      "<autogen>--KeyToKey-- KeyCode::A</autogen>", hFirst.trans (by decide +kernel)⟩
  have hEnding : ending Workbench.unplaced (compiler.compileUnit ⟨"u", [⟨"1", first⟩,
        ⟨"2", second⟩, ⟨"3", "<identifier>b</identifier>"⟩]⟩ bench) =
      ending Workbench.unplaced (compiler.compileUnit ⟨"u",
        [⟨"12", first ++ "</item>\n" ++ second⟩, ⟨"0", "<identifier>b</identifier>"⟩]⟩ bench) :=
    @compileUnit_of_joined compiler "u" bench _ _ [] ["<identifier>b</identifier>"] first second
      hEnds rfl rfl
  obtain ⟨unit, after', after, hRun, hJoined, hAfter⟩ | ⟨_, _, _, hRun, _⟩ :=
    ending_eq_cases hEnding
  · simp only [hRun, Option.some.injEq, Prod.mk.injEq] at hFacts
    obtain ⟨hRules, hSlots, hNumbering, hNames⟩ := hFacts
    simp only [Workbench.unplaced, Workbench.mk.injEq] at hAfter
    obtain ⟨hNumbering', hRegistry, _⟩ := hAfter
    exact ⟨compiler, first, second, _, _, bench, unit, after, hCompiler, hFirst, hSecond, rfl, rfl,
      hBench, hJoined, hRules, hSlots, hNumbering' ▸ hNumbering, hRegistry ▸ hNames⟩
  · rw [hRun] at hFacts
    cases hFacts

end Compiler

end KeyRemap
