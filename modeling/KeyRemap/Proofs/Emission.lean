import KeyRemap.Compilation
import KeyRemap.Proofs.SplitRule
import Mathlib.Data.List.Forall2

/-!
# Writing rules out

A compiled unit has three lists that run in parallel: the names of its rules, their entries in the
registry and their texts. Each has one item for each name that a header gives, in the order in which
the names first appear, however often a rule is left and taken up again.

* `Rule.render_spec`: what a rule is written as; the text is empty when there are no statements.
* `Rule.render_case`: a rule is written as nothing, or as a class with its predicate.
* `Compiler.emitRules_spec`: writing rules out adds one item for each rule.
* `Compiler.exists_of_compileUnit`: a compiled unit is a reading that has been written out.
* `Compiler.rules_of_compileUnit`: the three lists of a unit and the headers they come from.
-/

namespace KeyRemap

/-! ## The names of parts -/

theorem Part.names_ofLines (lines : List String) :
    (ofLines lines).map Part.name = lines.filterMap Header.read? := by
  induction lines with
  | nil => rfl
  | cons line lines ih =>
    rw [List.filterMap_cons]
    cases hName : Header.read? line with
    | some name =>
      have hRole : LineRole.of line = .header name := by
        simp only [LineRole.of, hName]
      simp only [ofLines, hRole, List.map_cons, ih]
    | none =>
      have hRole : LineRole.of line = .itemEnd ∨ LineRole.of line = .content := by
        simp only [LineRole.of, hName]
        split
        · exact .inl rfl
        · exact .inr rfl
      rcases hRole with hRole | hRole
      · simp only [ofLines, hRole, ih]
      · simp only [ofLines, hRole, ih]

/-- The names that the header lines of sources give, repetitions included. -/
def Source.headerNames (sources : List Source) : List String :=
  (sources.flatMap fun source => Text.lines source.text).filterMap Header.read?

theorem Source.names_parts (sources : List Source) :
    (sources.flatMap parts).map Part.name = headerNames sources := by
  rw [headerNames, List.map_flatMap, List.filterMap_flatMap]
  simp only [parts, Part.names_ofLines]

/-! ## Rules as text -/

namespace Rule

theorem isEmpty_iff (rule : Rule) :
    rule.isEmpty = true ↔ ∀ hook, rule.fragments.get hook = [] := by
  simp [isEmpty, Fragments.isEmpty, Hook.mem_all]

/-- Some hook of the rule has a statement. -/
def HasStatement (rule : Rule) : Prop :=
  ∃ hook, rule.fragments.get hook ≠ []

theorem hasStatement_iff (rule : Rule) : rule.HasStatement ↔ rule.isEmpty = false := by
  rw [← Bool.not_eq_true, isEmpty_iff, HasStatement]
  simp only [not_forall, ne_eq]

instance (rule : Rule) : Decidable rule.HasStatement :=
  decidable_of_iff _ rule.hasStatement_iff.symm

theorem classText_ne_empty (rule : Rule) (enabled : Enabled) : rule.classText enabled ≠ "" := by
  simp [classText, openingText]

theorem entry_ne_absent (rule : Rule) : rule.entry ≠ .absent rule.name := by
  intro h
  cases congrArg Registry.Entry.enabled h

/-- A rule is written under its name; text and entry points are missing exactly where it has no
statement. -/
theorem render_spec {resolver : Resolver} {rule : Rule} {written : Rendered}
    (h : rule.render resolver = .ok written) :
    written.entry.name = rule.name ∧
    (written.code = "" ↔ rule.isEmpty = true) ∧
    (written.entry = .absent rule.name ↔ rule.isEmpty = true) := by
  unfold render at h
  split at h
  · rename_i hEmpty
    cases h
    simp [hEmpty, Registry.Entry.absent]
  · rename_i hEmpty
    split at h
    · cases h
    · cases h
      exact ⟨rfl, iff_of_false (rule.classText_ne_empty _) hEmpty,
        iff_of_false rule.entry_ne_absent hEmpty⟩

/-- The two ways in which a rule is written out. -/
theorem render_case {resolver : Resolver} {rule : Rule} {item : Rendered}
    (h : rule.render resolver = .ok item) :
    (¬ rule.HasStatement ∧ item.code = "" ∧ item.entry = .absent rule.name) ∨
    (rule.HasStatement ∧ item.entry = rule.entry ∧
      ∃ enabled, Enabled.ofRule resolver rule.name = .ok enabled ∧
        item.code = rule.classText enabled) := by
  rw [hasStatement_iff]
  unfold render at h
  split at h
  · rename_i hEmpty
    cases h
    exact .inl ⟨by simp [hEmpty], rfl, rfl⟩
  · rename_i hEmpty
    split at h
    · cases h
    · rename_i enabled hEnabled
      cases h
      exact .inr ⟨by simpa using hEmpty, rfl, enabled, hEnabled, rfl⟩

theorem openingText_eq (rule : Rule) :
    rule.openingText = "class RemapClass_" ++ rule.name ++ " \x7b\npublic:\n" := by
  have hClass : "class RemapClass_" = "class " ++ "RemapClass_" := by decide +kernel
  unfold openingText className
  simp only [hClass, String.append_assoc]

theorem storageText_eq (rule : Rule) :
    rule.storageText =
      "\nprivate:\nstatic RemapClass::Item value_[" ++ (max rule.slotCount 1).repr ++
        "];\n\x7d;\nRemapClass::Item RemapClass_" ++ rule.name ++ "::value_[" ++
        (max rule.slotCount 1).repr ++ "];\n\n\n" := by
  have hItem : "];\n\x7d;\nRemapClass::Item RemapClass_" =
      "];\n\x7d;\n" ++ ("RemapClass::Item " ++ "RemapClass_") := by decide +kernel
  unfold storageText className arraySize
  simp only [hItem, String.append_assoc]

end Rule

/-! ## Units as text -/

theorem exists_of_map_eq_pair {α β : Type} {f : α → β} {items : List α} {b c : β}
    (h : items.map f = [b, c]) : ∃ first second, items = [first, second] ∧ f first = b ∧
      f second = c := by
  obtain ⟨first, rest, rfl, hFirst, hRest⟩ := List.map_eq_cons_iff.mp h
  obtain ⟨second, rfl, hSecond⟩ := List.map_eq_singleton_iff.mp hRest
  exact ⟨first, second, rfl, hFirst, hSecond⟩

namespace Compiler

/-- Writing rules out puts one item for each rule behind those that are there: its name, its entry
and its text. -/
theorem emitRules_spec {compiler : Compiler} {rules : List Rule} {before after : Emission}
    (hRun : compiler.emitRules rules before = .ok () after) :
    ∃ written : List Rule.Rendered,
      List.Forall₂ (fun rule item => rule.render compiler.resolver = .ok item) rules written ∧
      after.rules = before.rules ++ rules.map Rule.name ∧
      after.registry.entries = before.registry.entries ++ written.map (·.entry) ∧
      after.code = before.code ++ String.join (written.map (·.code)) := by
  induction rules generalizing before with
  | nil =>
    cases hRun
    exact ⟨[], .nil, by simp⟩
  | cons rule rules ih =>
    simp only [emitRules, bind, EStateM.bind, Rule.emit] at hRun
    cases hRender : rule.render compiler.resolver with
    | error cause =>
      rw [hRender] at hRun
      cases hRun
    | ok item =>
      rw [hRender] at hRun
      obtain ⟨written, hWritten, hRules, hEntries, hCode⟩ := ih hRun
      refine ⟨item :: written, .cons hRender hWritten, ?_, ?_, ?_⟩
      · simpa using hRules
      · simpa [Registry.add] using hEntries
      · simpa [String.append_assoc] using hCode

/-- A compiled unit is a reading of its sources that has been written out. -/
theorem exists_of_compileUnit {compiler : Compiler} {input : UnitInput}
    {bench after : Workbench} {unit : CompiledUnit}
    (hRun : compiler.compileUnit input bench = .ok unit after) :
    ∃ (reading : Reading) (written : List Rule.Rendered),
      compiler.readSources input.sources { numbering := bench.numbering } = .ok () reading ∧
      List.Forall₂ (fun rule item => rule.render compiler.resolver = .ok item)
        reading.rules written ∧
      after.numbering = reading.numbering ∧
      after.registry.entries = bench.registry.entries ++ written.map (·.entry) ∧
      unit.rules = reading.rules.map Rule.name ∧
      unit.code = String.join (written.map (·.code)) ∧
      unit.slotCount = reading.numbering.slots := by
  unfold compileUnit at hRun
  split at hRun
  · cases hRun
  · rename_i reading hRead
    split at hRun
    · cases hRun
    · rename_i emission hEmit
      cases hRun
      obtain ⟨written, hWritten, hRules, hEntries, hCode⟩ := emitRules_spec hEmit
      exact ⟨reading, written, hRead, hWritten, rfl, hEntries, by simpa using hRules,
        by simpa using hCode, rfl⟩

/-- A collected rule has no statement when none of its parts has one. -/
theorem isEmpty_iff_of_readSources {compiler : Compiler} {sources : List Source}
    {numbering : Numbering} {reading : Reading}
    (hRun : compiler.readSources sources { numbering } = .ok () reading)
    {rule : Rule} (hRule : rule ∈ reading.rules) :
    rule.isEmpty = true ↔
      ∀ part ∈ compiler.partsOf sources numbering rule.name, ∀ hook,
        part.statements compiler hook = [] := by
  have hClosed : ∀ part : PlacedPart, ∀ hook,
      part.closed compiler hook = [] ↔ part.statements compiler hook = [] := by
    intro part hook
    unfold PlacedPart.closed
    split <;> simp_all
  rw [Rule.isEmpty_iff]
  simp only [get_eq_flatMap_closed hRun hRule, List.flatMap_eq_nil_iff, hClosed]
  exact ⟨fun h part hPart hook => h hook part hPart, fun h hook part hPart => h part hPart hook⟩

theorem names_of_render {compiler : Compiler} {rules : List Rule}
    {written : List Rule.Rendered}
    (h : List.Forall₂ (fun rule item => rule.render compiler.resolver = .ok item)
      rules written) :
    (written.map fun item => item.entry.name) = rules.map Rule.name := by
  induction h with
  | nil => rfl
  | cons hItem _ ih => rw [List.map_cons, List.map_cons, (Rule.render_spec hItem).1, ih]

/-- **No rule is lost, doubled or moved.** The rules of a compiled unit are the names that header
lines of its sources give, each once and in the order of their first appearance. The registry has
one more entry for each of them, the code is made of their texts, both in the same order; text and
entry points are missing exactly for the rules to which no part has brought a statement. -/
theorem rules_of_compileUnit {compiler : Compiler} {input : UnitInput}
    {bench after : Workbench} {unit : CompiledUnit}
    (hRun : compiler.compileUnit input bench = .ok unit after) :
    ∃ (reading : Reading) (written : List Rule.Rendered),
      compiler.readSources input.sources { numbering := bench.numbering } = .ok () reading ∧
      unit.rules = (Source.headerNames input.sources).eraseDups ∧
      reading.rules.map Rule.name = unit.rules ∧
      (written.map fun item => item.entry.name) = unit.rules ∧
      after.registry.entries = bench.registry.entries ++ written.map (·.entry) ∧
      unit.code = String.join (written.map (·.code)) ∧
      List.Forall₂
        (fun rule item =>
          rule.render compiler.resolver = .ok item ∧
          (item.code = "" ↔ ∀ part ∈ compiler.partsOf input.sources bench.numbering rule.name,
            ∀ hook, part.statements compiler hook = []) ∧
          (item.entry = .absent rule.name ↔
            ∀ part ∈ compiler.partsOf input.sources bench.numbering rule.name,
              ∀ hook, part.statements compiler hook = []))
        reading.rules written := by
  obtain ⟨reading, written, hRead, hWritten, _, hEntries, hRules, hCode, _⟩ :=
    exists_of_compileUnit hRun
  refine ⟨reading, written, hRead, ?_, hRules.symm, ?_, hEntries, hCode, ?_⟩
  · rw [hRules, names_readSources hRead, Source.names_parts]
  · rw [hRules, names_of_render hWritten]
  · have hMem : ∀ rule ∈ reading.rules, rule ∈ reading.rules := fun _ h => h
    apply (List.forall₂_and_left _ _ |>.mpr ⟨hMem, hWritten⟩).imp
    intro rule item ⟨hRule, hRender⟩
    obtain ⟨_, hText, hEntry⟩ := Rule.render_spec hRender
    rw [isEmpty_iff_of_readSources hRead hRule] at hText hEntry
    exact ⟨hRender, hText, hEntry⟩

/-- A rule that is taken up twice and never gets a line is there once, in the place of its first
header, without text and entry points; an entry of an earlier unit stays. -/
theorem rules_of_compileUnit_reopened :
    ∃ unit after item,
      compileUnit { resolver := .constant 7 }
        ⟨"u", [⟨"s", "<identifier>b</identifier>\n<identifier>a</identifier>\n" ++
          "<autogen>--KeyToKey-- KeyCode::A</autogen>\n<identifier>b</identifier>"⟩]⟩
        { registry := ⟨[.absent "a"]⟩ } = .ok unit after ∧
      unit.rules = ["b", "a"] ∧
      after.registry.entries = [.absent "a", .absent "b", item] ∧
      item.name = "a" ∧ item ≠ .absent "a" ∧ unit.code ≠ "" := by
  generalize hCompiler : ({ resolver := .constant 7 } : Compiler) = compiler
  generalize hSources : ([⟨"s", "<identifier>b</identifier>\n<identifier>a</identifier>\n" ++
    "<autogen>--KeyToKey-- KeyCode::A</autogen>\n<identifier>b</identifier>"⟩] : List Source) =
      sources
  obtain ⟨hOk, hParts⟩ :
      (match compiler.compileUnit ⟨"u", sources⟩ { registry := ⟨[.absent "a"]⟩ } with
        | .ok _ _ => true
        | .error _ _ => false) = true ∧
      sources.flatMap Source.parts =
        [⟨"b", []⟩, ⟨"a", ["<autogen>--KeyToKey-- KeyCode::A</autogen>"]⟩, ⟨"b", []⟩] := by
    subst hCompiler hSources
    decide +kernel
  have hNames : (Source.headerNames sources).eraseDups = ["b", "a"] := by
    rw [← Source.names_parts, hParts]
    decide
  have hSilent : ∀ part ∈ compiler.partsOf sources {} "b", ∀ hook,
      part.statements compiler hook = [] := by
    intro part hPart hook
    obtain ⟨hMem, hName⟩ := mem_partsOf hPart
    have hBare : ∀ part ∈ sources.flatMap Source.parts, part.name = "b" → part.lines = [] := by
      rw [hParts]
      decide
    rw [PlacedPart.statements, hBare part.toPart hMem hName]
    rfl
  have hKey : ¬ ∀ part ∈ compiler.partsOf sources {} "a", ∀ hook,
      part.statements compiler hook = [] := by
    have hSome : ∃ part ∈ compiler.partsOf sources {} "a",
        part.statements compiler .key ≠ [] := by
      rw [partsOf, hParts]
      subst hCompiler
      decide +kernel
    obtain ⟨part, hPart, hStatements⟩ := hSome
    exact fun h => hStatements (h part hPart .key)
  cases hRun : compiler.compileUnit ⟨"u", sources⟩ { registry := ⟨[.absent "a"]⟩ } with
  | error cause after =>
    rw [hRun] at hOk
    cases hOk
  | ok unit after =>
    obtain ⟨reading, written, _, hRules, hReading, _, hEntries, hCode, hItems⟩ :=
      rules_of_compileUnit hRun
    rw [hRules, hNames] at hReading
    obtain ⟨b, a, hList, hB, hA⟩ := exists_of_map_eq_pair hReading
    rw [hList] at hItems
    obtain _ | ⟨⟨_, _, hAbsent⟩, _ | ⟨⟨hRender, hText, hEntry⟩, _ | _⟩⟩ := hItems
    rw [hB] at hAbsent
    rw [hA] at hText hEntry
    refine ⟨unit, after, _, rfl, hRules.trans hNames, ?_, ?_, mt hEntry.mp hKey, ?_⟩
    · rw [hEntries]
      simp [hAbsent.mpr hSilent]
    · rw [(Rule.render_spec hRender).1, hA]
    · rw [hCode]
      simp [mt hText.mp hKey]

end Compiler

end KeyRemap
