import KeyRemap.Proofs.Emission
import KeyRemap.Proofs.HeaderLine

/-!
# Blanks in the names of rules

The name of a rule has no blanks at its ends and is not empty, for whatever stands in the element of
its header, but for one case: where there are only blanks up to the one closing tag behind the first
opening tag, the last of them is left as the name. So the names of a unit are as they should be
exactly if none of its lines is of this kind.

* `Header.isClean_or_of_read?`: the name of a header, in the two cases.
* `Header.read?_of_blankElement`: the line of the second kind.
* `Compiler.clean_names_of_compileUnit`: the names of a unit and of its entries.
* `Compiler.not_names_clean`: a unit with a name that is a blank.
-/

namespace KeyRemap

namespace Header

/-- A name that has characters and no blank at either end. -/
structure IsClean (name : String) : Prop where
  ne_empty : name ≠ ""
  first : ∀ c ∈ name.toList.head?, Text.isBlank c = false
  last : ∀ c ∈ name.toList.getLast?, Text.isBlank c = false

theorem isClean_iff (name : String) :
    IsClean name ↔ name ≠ "" ∧ name.toList.head?.all (fun c => !Text.isBlank c) = true ∧
      name.toList.getLast?.all (fun c => !Text.isBlank c) = true := by
  have hAll : ∀ found : Option Char, found.all (fun c => !Text.isBlank c) = true ↔
      ∀ c ∈ found, Text.isBlank c = false := by
    intro found
    cases found <;> simp
  rw [hAll, hAll]
  exact ⟨fun h => ⟨h.ne_empty, h.first, h.last⟩, fun h => ⟨h.1, h.2.1, h.2.2⟩⟩

instance (name : String) : Decidable (IsClean name) :=
  decidable_of_iff _ (isClean_iff name).symm

theorem not_isClean_of_blank {name : String} {c : Char} (hName : name.toList = [c])
    (hBlank : Text.isBlank c = true) : ¬ IsClean name := by
  intro hClean
  have hFirst := hClean.first c (by rw [hName]; rfl)
  rw [hBlank] at hFirst
  cases hFirst

/-- The first element of the line holds blanks and nothing else, and no closing tag comes behind
it. -/
def IsBlankElement (line : String) : Prop :=
  ∃ before blanks after : String, IsFirstElement before blanks after line ∧ blanks ≠ "" ∧
    blanks.toList.all Text.isBlank = true ∧ ¬ closingTag <:+: after.toList

theorem cutInner_closingTag_eq_none_iff (after : List Char) :
    Text.cutInner closingTag (closingTag ++ after) = none ↔ ¬ closingTag <:+: after := by
  obtain ⟨tag, hTag⟩ : ∃ tag, closingTag = '<' :: tag := ⟨_, rfl⟩
  have hNot : '<' ∉ tag := by
    have hAll : '<' ∉ closingTag.tail := by decide
    rwa [hTag] at hAll
  rw [← Text.cutFirst_eq_none_iff, hTag, List.cons_append, Text.cutInner, Option.map_eq_none_iff,
    Text.cutFirst_append_of_not_mem hNot, Option.map_eq_none_iff]

theorem cutFirst_closingTag_of_blanks {blanks : List Char}
    (h : blanks.all Text.isBlank = true) (after : List Char) :
    Text.cutFirst closingTag (blanks ++ (closingTag ++ after)) = some (blanks, after) := by
  obtain ⟨tag, hTag⟩ : ∃ tag, closingTag = '<' :: tag := ⟨_, rfl⟩
  have hNot : '<' ∉ blanks := by
    intro hMem
    have hBlank := List.all_eq_true.mp h '<' hMem
    revert hBlank
    decide
  have hStart : Text.cutFirst closingTag (closingTag ++ after) = some ([], after) :=
    Text.cutFirst_eq_of_length_le rfl fun _ _ _ => Nat.zero_le _
  rw [hTag] at hStart ⊢
  rw [Text.cutFirst_append_of_not_mem hNot, hStart]
  simp

/-- A name that is read is clean, or it is one of the blanks in an element without anything else. -/
theorem isClean_or_of_read? {line name : String} (h : read? line = some name) :
    IsClean name ∨
    IsBlankElement line ∧ ∃ c, name.toList = [c] ∧ Text.isBlank c = true := by
  rcases exists_of_read? h with
    ⟨before, lead, inner, after, _, _, hFirst, hClosing, rfl⟩ |
    ⟨before, blanks, last, after, hOpening, hBlanks, hOnly, rfl⟩
  · left
    obtain ⟨hNil, _⟩ := Text.eq_append_of_cutInner hClosing
    obtain ⟨c, inner, rfl⟩ := List.exists_cons_of_ne_nil hNil
    have hHead := Text.head?_trimEnd (c :: inner) (by simpa using hFirst)
    refine ⟨?_, ?_, ?_⟩
    · intro hEmpty
      have hTrim : Text.trimEnd (c :: inner) = [] := by simpa using hEmpty
      rw [hTrim] at hHead
      cases hHead
    · rw [String.toList_ofList, hHead]
      simpa using hFirst
    · rw [String.toList_ofList]
      intro d hd
      exact Text.isBlank_getLast?_trimEnd hd
  · right
    have hClosing := cutFirst_closingTag_of_blanks hBlanks after
    have hElement := IsFirstElement.of_cuts hOpening hClosing
    refine ⟨⟨_, _, _, hElement, ?_, ?_, ?_⟩, last, ?_, ?_⟩
    · simp
    · rwa [String.toList_ofList]
    · rwa [String.toList_ofList, ← cutInner_closingTag_eq_none_iff]
    · rw [String.toList_ofList]
    · simpa using List.all_eq_true.mp hBlanks last (by simp)

/-- The name in an element without anything but blanks is a blank. -/
theorem read?_of_blankElement {line : String} (h : IsBlankElement line) :
    ∃ name c, read? line = some name ∧ name.toList = [c] ∧ Text.isBlank c = true := by
  obtain ⟨before, blanks, after, hElement, hNe, hBlanks, hOnly⟩ := h
  have hNil : blanks.toList ≠ [] := by simpa using hNe
  obtain ⟨start, last, hSplit⟩ := (List.eq_nil_or_concat' blanks.toList).resolve_left hNil
  rw [hSplit] at hBlanks
  have hOpening := hElement.cutFirst_opening
  rw [hSplit, List.append_assoc] at hOpening
  have hPreferred := isPreferred_of_blanks hOpening hBlanks
    ((cutInner_closingTag_eq_none_iff _).mpr hOnly)
  refine ⟨_, last, read?_eq_some_iff.mpr ⟨_, hPreferred, rfl⟩, ?_, ?_⟩
  · rw [String.toList_ofList]
  · exact List.all_eq_true.mp hBlanks last (by simp)

end Header

namespace Compiler

theorem names_eq_of_compileUnit {compiler : Compiler} {input : UnitInput}
    {bench after : Workbench} {unit : CompiledUnit}
    (hRun : compiler.compileUnit input bench = .ok unit after) :
    ∃ entries : List Registry.Entry,
      after.registry.entries = bench.registry.entries ++ entries ∧
      entries.map Registry.Entry.name = unit.rules ∧
      unit.rules = (Source.headerNames input.sources).eraseDups := by
  obtain ⟨reading, written, hRead, hWritten, _, hEntries, hRules, _⟩ := exists_of_compileUnit hRun
  refine ⟨written.map (·.entry), hEntries, ?_, ?_⟩
  · rw [List.map_map, hRules, ← names_of_render hWritten]
    rfl
  · rw [hRules, names_readSources hRead, Source.names_parts]

/-- A rule of a unit has its name from a header line of the unit's sources. -/
theorem mem_rules_iff_of_compileUnit {compiler : Compiler} {input : UnitInput}
    {bench after : Workbench} {unit : CompiledUnit}
    (hRun : compiler.compileUnit input bench = .ok unit after) {name : String} :
    name ∈ unit.rules ↔ ∃ source ∈ input.sources, ∃ line ∈ Text.lines source.text,
      Header.read? line = some name := by
  obtain ⟨_, _, _, hRules⟩ := names_eq_of_compileUnit hRun
  rw [hRules, List.mem_eraseDups, Source.headerNames, List.mem_filterMap]
  constructor
  · rintro ⟨line, hLine, hRead⟩
    obtain ⟨source, hSource, hLine⟩ := List.mem_flatMap.mp hLine
    exact ⟨source, hSource, line, hLine, hRead⟩
  · rintro ⟨source, hSource, line, hLine, hRead⟩
    exact ⟨line, List.mem_flatMap.mpr ⟨source, hSource, hLine⟩, hRead⟩

/-- **Names of rules.** A compiled unit registers its rules by their names. No name is empty, and
every name that is not clean is a single blank. All names are clean exactly if in no line of the
sources the first element holds blanks and nothing else, with no closing tag behind it. -/
theorem clean_names_of_compileUnit {compiler : Compiler} {input : UnitInput}
    {bench after : Workbench} {unit : CompiledUnit}
    (hRun : compiler.compileUnit input bench = .ok unit after) :
    (∃ entries : List Registry.Entry,
      after.registry.entries = bench.registry.entries ++ entries ∧
      entries.map Registry.Entry.name = unit.rules) ∧
    (∀ name ∈ unit.rules,
      name ≠ "" ∧ (Header.IsClean name ∨ ∃ c, name.toList = [c] ∧ Text.isBlank c = true)) ∧
    ((∀ name ∈ unit.rules, Header.IsClean name) ↔
      ∀ source ∈ input.sources, ∀ line ∈ Text.lines source.text,
        ¬ Header.IsBlankElement line) := by
  have hMem : ∀ name, name ∈ unit.rules ↔ ∃ source ∈ input.sources,
      ∃ line ∈ Text.lines source.text, Header.read? line = some name :=
    fun _ => mem_rules_iff_of_compileUnit hRun
  refine ⟨?_, ?_, ?_, ?_⟩
  · obtain ⟨entries, hEntries, hNames, _⟩ := names_eq_of_compileUnit hRun
    exact ⟨entries, hEntries, hNames⟩
  · intro name hName
    obtain ⟨source, _, line, _, hRead⟩ := (hMem name).mp hName
    rcases Header.isClean_or_of_read? hRead with hClean | ⟨_, c, hBlank, hc⟩
    · exact ⟨hClean.ne_empty, .inl hClean⟩
    · refine ⟨?_, .inr ⟨c, hBlank, hc⟩⟩
      rintro rfl
      cases hBlank
  · intro hClean source hSource line hLine hElement
    obtain ⟨name, c, hRead, hName, hBlank⟩ := Header.read?_of_blankElement hElement
    have hRule := (hMem name).mpr ⟨source, hSource, line, hLine, hRead⟩
    exact Header.not_isClean_of_blank hName hBlank (hClean name hRule)
  · intro hNone name hName
    obtain ⟨source, hSource, line, hLine, hRead⟩ := (hMem name).mp hName
    rcases Header.isClean_or_of_read? hRead with hClean | ⟨hElement, _⟩
    · exact hClean
    · exact absurd hElement (hNone source hSource line hLine)

/-- The names of the rules of a unit that is compiled alone, if it compiles. -/
def rules? (compiler : Compiler) (input : UnitInput) : Option (List String) :=
  match compiler.compileUnit input {} with
  | .ok unit _ => some unit.rules
  | .error _ _ => none

/-- A name with blanks on both sides, and an element that begins with a closing tag of its own: the
names come out clean. -/
theorem clean_names_of_compileUnit_padded :
    ∃ input unit after,
      input = ⟨"u", [⟨"s", "<identifier>\t a b\u3000</identifier>\n" ++
        "<identifier> </identifier> c </identifier>"⟩]⟩ ∧
      compileUnit { resolver := .constant 7 } input {} = .ok unit after ∧
      unit.rules = ["a b", "</identifier> c"] ∧
      (∀ name ∈ unit.rules, Header.IsClean name) ∧
      ∀ source ∈ input.sources, ∀ line ∈ Text.lines source.text,
        ¬ Header.IsBlankElement line := by
  generalize hCompiler : ({ resolver := .constant 7 } : Compiler) = compiler
  obtain ⟨input, hInput⟩ : ∃ input : UnitInput,
      input = ⟨"u", [⟨"s", "<identifier>\t a b\u3000</identifier>\n" ++
        "<identifier> </identifier> c </identifier>"⟩]⟩ :=
    ⟨_, rfl⟩
  have hNames : compiler.rules? input = some ["a b", "</identifier> c"] := by
    subst hCompiler hInput
    decide +kernel
  unfold rules? at hNames
  cases hRun : compiler.compileUnit input {} with
  | error cause after =>
    rw [hRun] at hNames
    cases hNames
  | ok unit after =>
    rw [hRun] at hNames
    have hRules := Option.some.inj hNames
    have hClean : ∀ name ∈ unit.rules, Header.IsClean name := by
      rw [hRules]
      decide +kernel
    exact ⟨input, unit, after, hInput, hRun, hRules, hClean,
      (clean_names_of_compileUnit hRun).2.2.mp hClean⟩

/-- A header whose element holds one blank opens a rule with this blank as its name. -/
theorem not_names_clean :
    ¬ ∀ (compiler : Compiler) (input : UnitInput) (bench after : Workbench) (unit : CompiledUnit),
      compiler.compileUnit input bench = .ok unit after →
      ∀ name ∈ unit.rules, Header.IsClean name := by
  intro hAll
  let compiler : Compiler := { resolver := .constant 7 }
  let input : UnitInput := ⟨"u", [⟨"s", "<identifier> </identifier>"⟩]⟩
  have hNames : compiler.rules? input = some [" "] := by
    decide +kernel
  unfold rules? at hNames
  cases hRun : compiler.compileUnit input {} with
  | error cause after =>
    rw [hRun] at hNames
    cases hNames
  | ok unit after =>
    rw [hRun] at hNames
    have hClean := hAll compiler input {} after unit hRun
    rw [Option.some.inj hNames] at hClean
    exact absurd (hClean " " List.mem_cons_self) (by decide +kernel)

end Compiler

end KeyRemap
