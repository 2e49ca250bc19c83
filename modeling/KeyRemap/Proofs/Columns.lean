import KeyRemap.Proofs.Slots

/-!
# Dispatch tables and class texts

The columns of the registry say which functions the classes of a run offer. A class is written from
the statements of its rule, and so is its entry; over all units of a run, text and entry of a rule
stand at the same place. So a column names a function exactly where a class defines it.

* `Rule.Offers`: which hooks the class of a rule has, read off the statements alone.
* `Registry.Shows`: at a position, the columns and a text tell the same about a rule.
* `Compiler.columns_of_compile`: the columns of a run and the classes of its units.
-/

namespace KeyRemap

/-! ## What the class of a rule has -/

namespace Enabled

/-- What the predicate of a rule answers with, by the name of the rule: the passthrough switch, or
the flag of the rule, and this while passthrough is off unless the name says otherwise. -/
def IsCondition (resolver : Resolver) (name condition : String) : Prop :=
  name = "notsave_passthrough" ∧ condition = "config.notsave_passthrough" ∨
  name ≠ "notsave_passthrough" ∧ ∃ index, resolver.flag? name = some index ∧
    condition = "config.enabled_flags[" ++ index.toNat.repr ++ "]" ++
      if "passthrough_".toList <+: name.toList then "" else " && ! config.notsave_passthrough"

theorem exists_isCondition {resolver : Resolver} {name : String} {enabled : Enabled}
    (h : ofRule resolver name = .ok enabled) :
    ∃ condition, IsCondition resolver name condition ∧
      enabled.code = "return " ++ condition ++ ";\n" := by
  unfold ofRule at h
  split at h
  · rename_i hName
    cases h
    exact ⟨_, .inl ⟨hName, rfl⟩, by decide +kernel⟩
  · rename_i hName
    split at h
    · cases h
    · rename_i index hFlag
      refine ⟨_, .inr ⟨hName, index, hFlag, rfl⟩, ?_⟩
      have hStem : "return config.enabled_flags[" = "return " ++ "config.enabled_flags[" := by
        decide +kernel
      split at h
      · rename_i hPassthrough
        cases h
        have hEnd : "];\n" = "]" ++ ("" ++ ";\n") := by decide +kernel
        have hStart : "passthrough_".toList <+: name.toList :=
          List.isPrefixOf_iff_prefix.mp hPassthrough
        rw [if_pos hStart]
        unfold code
        simp only [hStem, hEnd, String.append_assoc]
      · rename_i hPassthrough
        cases h
        have hEnd : "] && ! config.notsave_passthrough;\n" =
            "]" ++ (" && ! config.notsave_passthrough" ++ ";\n") := by
          decide +kernel
        have hOther : ¬ "passthrough_".toList <+: name.toList :=
          fun hStart => hPassthrough (List.isPrefixOf_iff_prefix.mpr hStart)
        rw [if_neg hOther]
        unfold code
        simp only [hStem, hEnd, String.append_assoc]

end Enabled

namespace Rule

/-- The rule is written as a class, and the class has a function for the hook: setup and teardown
always, any other hook if it has a statement. -/
def Offers (rule : Rule) (hook : Hook) : Prop :=
  rule.HasStatement ∧ (hook = .setup ∨ hook = .teardown ∨ rule.fragments.get hook ≠ [])

instance (rule : Rule) (hook : Hook) : Decidable (rule.Offers hook) :=
  inferInstanceAs (Decidable (_ ∧ _))

/-- The name of a function of the rule's class. -/
def reference (rule : Rule) (function : String) : String :=
  "RemapClass_" ++ rule.name ++ "::" ++ function

theorem reference_ne_absent (rule : Rule) (function : String) :
    rule.reference function ≠ Registry.absentReference := by
  intro h
  have hHead := congrArg (fun s => s.toList.head?) h
  simp [reference, Registry.absentReference] at hHead

theorem mem_definedHooks_iff {rule : Rule} (hRule : rule.HasStatement) (hook : Hook) :
    hook ∈ rule.definedHooks ↔ rule.Offers hook := by
  simp only [definedHooks, List.mem_filter, Hook.mem_all, true_and, Offers, hRule]
  cases hook <;> simp [Hook.isOptional]

/-- What stands in a column for a rule that has been written out. -/
theorem hook_of_render {resolver : Resolver} {rule : Rule} {item : Rendered}
    (h : rule.render resolver = .ok item) (hook : Hook) :
    (item.entry.hook hook).getD Registry.absentReference =
      if rule.Offers hook then rule.reference hook.name else Registry.absentReference := by
  rcases render_case h with ⟨hRule, _, hEntry⟩ | ⟨hRule, hEntry, _⟩
  · have hOffers : ¬ rule.Offers hook := fun hOffers => hRule hOffers.1
    simp [hEntry, Registry.Entry.hook, Registry.Entry.absent, hOffers]
  · have hReference : rule.entry.hook hook =
        if rule.Offers hook then some (rule.reference hook.name) else none := by
      simp only [Registry.Entry.hook, entry, PerHook.get_ofFn, mem_definedHooks_iff hRule]
      rfl
    rw [hEntry, hReference]
    split <;> rfl

theorem enabled_of_render {resolver : Resolver} {rule : Rule} {item : Rendered}
    (h : rule.render resolver = .ok item) :
    item.entry.enabled.getD Registry.absentReference =
      if rule.HasStatement then rule.reference "enabled" else Registry.absentReference := by
  rcases render_case h with ⟨hRule, _, hEntry⟩ | ⟨hRule, hEntry, _⟩
  · rw [hEntry, if_neg hRule]
    rfl
  · rw [hEntry, if_pos hRule, reference, String.append_assoc]
    rfl

/-- The text of a class: its header, the functions of the hooks it offers, its predicate and its
array. -/
theorem code_of_render {resolver : Resolver} {rule : Rule} {item : Rendered}
    (h : rule.render resolver = .ok item) (hRule : rule.HasStatement) :
    ∃ condition, Enabled.IsCondition resolver rule.name condition ∧
      item.code =
        "class RemapClass_" ++ rule.name ++ " \x7b\npublic:\n" ++
        String.join ((Hook.all.filter fun hook => rule.Offers hook).map fun hook =>
          hook.signature ++ " \x7b\n" ++ rule.hookBody hook ++ "\x7d\n") ++
        ("static bool enabled(void) \x7b\nreturn " ++ condition ++ ";\n\x7d\n") ++
        ("\nprivate:\nstatic RemapClass::Item value_[" ++ (max rule.slotCount 1).repr ++
          "];\n\x7d;\nRemapClass::Item RemapClass_" ++ rule.name ++ "::value_[" ++
          (max rule.slotCount 1).repr ++ "];\n\n\n") := by
  rcases render_case h with ⟨hNone, _⟩ | ⟨_, _, enabled, hEnabled, hCode⟩
  · exact absurd hRule hNone
  · have hHooks : rule.definedHooks = Hook.all.filter fun hook => rule.Offers hook := by
      unfold definedHooks
      apply List.filter_congr
      intro hook hMem
      have hIff := mem_definedHooks_iff hRule hook
      simp only [definedHooks, List.mem_filter, hMem, true_and] at hIff
      rw [Bool.eq_iff_iff, hIff, decide_eq_true_iff]
    have hTexts : rule.hookText =
        fun hook => hook.signature ++ " \x7b\n" ++ rule.hookBody hook ++ "\x7d\n" := rfl
    have hReturn : "static bool enabled(void) \x7b\nreturn " =
        "static bool enabled(void) \x7b\n" ++ "return " := by decide +kernel
    have hEnd : ";\n\x7d\n" = ";\n" ++ "\x7d\n" := by decide +kernel
    obtain ⟨condition, hCondition, hPredicate⟩ := Enabled.exists_isCondition hEnabled
    refine ⟨condition, hCondition, ?_⟩
    rw [hCode]
    unfold classText enabledText
    rw [hHooks, hTexts, openingText_eq, storageText_eq, hPredicate, hReturn, hEnd]
    simp only [String.append_assoc]

end Rule

/-! ## The columns at a position -/

namespace Registry

theorem length_column (registry : Registry) (hook : Hook) :
    (registry.column hook).length = registry.entries.length := by
  rw [column, List.length_map]

theorem length_enabledColumn (registry : Registry) :
    registry.enabledColumn.length = registry.entries.length := by
  rw [enabledColumn, List.length_map]

/-- The columns at a position and a text tell the same about a rule. A column names the function of
the rule's class if the class has it; the text is a class with the functions whose columns are not
absent, each once and in the order of the hooks; and there is no text where all columns are
absent. -/
structure Shows (registry : Registry) (resolver : Resolver) (p : Nat) (rule : Rule)
    (code : String) : Prop where
  name : (registry.entries[p]?).map Entry.name = some rule.name
  column : ∀ hook, (registry.column hook)[p]? =
    some (if rule.Offers hook then rule.reference hook.name else "NULL")
  enabledColumn : registry.enabledColumn[p]? =
    some (if rule.HasStatement then rule.reference "enabled" else "NULL")
  text : rule.HasStatement → ∃ condition, Enabled.IsCondition resolver rule.name condition ∧
    code =
      "class RemapClass_" ++ rule.name ++ " \x7b\npublic:\n" ++
      String.join
        ((Hook.all.filter fun hook => (registry.column hook)[p]? ≠ some "NULL").map fun hook =>
          hook.signature ++ " \x7b\n" ++ rule.hookBody hook ++ "\x7d\n") ++
      ("static bool enabled(void) \x7b\nreturn " ++ condition ++ ";\n\x7d\n") ++
      ("\nprivate:\nstatic RemapClass::Item value_[" ++ (max rule.slotCount 1).repr ++
        "];\n\x7d;\nRemapClass::Item RemapClass_" ++ rule.name ++ "::value_[" ++
        (max rule.slotCount 1).repr ++ "];\n\n\n")
  absent : code = "" ↔
    (∀ hook, (registry.column hook)[p]? = some "NULL") ∧ registry.enabledColumn[p]? = some "NULL"

/-- A rule that has been written out is shown by the columns at the position of its entry. -/
theorem shows_of_render {registry : Registry} {resolver : Resolver} {p : Nat} {rule : Rule}
    {item : Rule.Rendered} (hRender : rule.render resolver = .ok item)
    (hEntry : registry.entries[p]? = some item.entry) :
    registry.Shows resolver p rule item.code := by
  have hColumn : ∀ hook, (registry.column hook)[p]? =
      some (if rule.Offers hook then rule.reference hook.name else absentReference) := by
    intro hook
    rw [column, List.getElem?_map, hEntry, Option.map_some, Rule.hook_of_render hRender]
  have hEnabled : registry.enabledColumn[p]? =
      some (if rule.HasStatement then rule.reference "enabled" else absentReference) := by
    rw [enabledColumn, List.getElem?_map, hEntry, Option.map_some, Rule.enabled_of_render hRender]
  have hPresent : ∀ hook, (registry.column hook)[p]? ≠ some absentReference ↔
      rule.Offers hook := by
    intro hook
    rw [hColumn hook]
    split <;> simp_all [rule.reference_ne_absent]
  obtain ⟨hName, hEmpty, _⟩ := Rule.render_spec hRender
  refine ⟨?_, hColumn, hEnabled, ?_, ?_⟩
  · rw [hEntry, Option.map_some, hName]
  · intro hRule
    obtain ⟨condition, hCondition, hCode⟩ := Rule.code_of_render hRender hRule
    refine ⟨condition, hCondition, ?_⟩
    have hHooks : (Hook.all.filter fun hook => (registry.column hook)[p]? ≠ some "NULL") =
        Hook.all.filter fun hook => rule.Offers hook := by
      apply List.filter_congr
      intro hook _
      exact decide_eq_decide.mpr (hPresent hook)
    rw [hHooks, hCode]
  · have hNone : rule.isEmpty = true ↔ ¬ rule.HasStatement := by
      rw [rule.hasStatement_iff, Bool.not_eq_false]
    rw [hEmpty, hNone]
    constructor
    · intro hRule
      refine ⟨?_, ?_⟩
      · intro hook
        rw [hColumn hook, if_neg fun hOffers => hRule hOffers.1]
        rfl
      · rw [hEnabled, if_neg hRule]
        rfl
    · rintro ⟨_, hAbsent⟩ hRule
      rw [hEnabled, if_pos hRule] at hAbsent
      exact rule.reference_ne_absent _ (Option.some.inj hAbsent)

end Registry

/-! ## The columns of a run -/

namespace Compiler

/-- The units of a run are written out from their readings, and all rules of all units are
registered in that order. -/
theorem written_of_compileUnits {compiler : Compiler} {inputs : List UnitInput}
    {bench after : Workbench} {units : List CompiledUnit}
    (hRun : compiler.compileUnits inputs bench = .ok units after) :
    ∃ (readings : List Reading) (written : List (List Rule.Rendered)),
      compiler.readUnits inputs bench.numbering = .ok readings ∧
      List.Forall₂
        (fun reading items =>
          List.Forall₂ (fun rule item => rule.render compiler.resolver = .ok item)
            reading.rules items)
        readings written ∧
      List.Forall₂ (fun items unit => unit.code = String.join (items.map (·.code)))
        written units ∧
      after.registry.entries = bench.registry.entries ++ written.flatten.map (·.entry) := by
  induction inputs generalizing bench units with
  | nil =>
    cases hRun
    exact ⟨[], [], rfl, .nil, .nil, by simp⟩
  | cons input inputs ih =>
    obtain ⟨unit, middle, rest, rfl, hUnit, hRest⟩ := exists_of_compileUnits_cons hRun
    obtain ⟨reading, items, hRead, hItems, hNumbering, hEntries, _, hCode, _⟩ :=
      exists_of_compileUnit hUnit
    obtain ⟨readings, written, hReadings, hWritten, hUnits, hAll⟩ := ih hRest
    refine ⟨reading :: readings, items :: written, ?_, .cons hItems hWritten,
      .cons hCode hUnits, ?_⟩
    · rw [hNumbering] at hReadings
      simp only [readUnits, hRead]
      rw [hReadings]
      rfl
    · rw [hAll]
      simp [hEntries]

theorem render_of_written {compiler : Compiler} {readings : List Reading}
    {written : List (List Rule.Rendered)}
    (h : List.Forall₂
      (fun reading items =>
        List.Forall₂ (fun rule item => rule.render compiler.resolver = .ok item)
          reading.rules items)
      readings written) :
    List.Forall₂ (fun rule item => rule.render compiler.resolver = .ok item)
      (readings.flatMap Reading.rules) written.flatten := by
  rw [List.flatMap_def]
  exact List.rel_flatten (List.forall₂_map_left_iff.mpr h)

/-- **Columns and classes agree.** The rules of a run, in the order of units and of rules in them,
are written out one by one; the texts of a unit's rules make its code, and each rule has its
position in the registry. All columns are as long as the registry, and at every position they show
the rule there and its text. -/
theorem columns_of_compile {compiler : Compiler} {inputs : List UnitInput}
    {compilation : Compilation} (hRun : (compiler.compile inputs).1 = .ok compilation) :
    ∃ (readings : List Reading) (written : List (List Rule.Rendered)),
      compiler.readUnits inputs {} = .ok readings ∧
      List.Forall₂
        (fun reading items =>
          List.Forall₂ (fun rule item => rule.render compiler.resolver = .ok item)
            reading.rules items)
        readings written ∧
      List.Forall₂ (fun items unit => unit.code = String.join (items.map (·.code)))
        written compilation.units ∧
      (∀ hook, (compilation.registry.column hook).length =
        compilation.registry.entries.length) ∧
      compilation.registry.enabledColumn.length = compilation.registry.entries.length ∧
      (readings.flatMap Reading.rules).length = compilation.registry.entries.length ∧
      ∀ p < compilation.registry.entries.length, ∃ rule item,
        (readings.flatMap Reading.rules)[p]? = some rule ∧
        written.flatten[p]? = some item ∧
        rule.render compiler.resolver = .ok item ∧
        compilation.registry.Shows compiler.resolver p rule item.code := by
  unfold compile at hRun
  split at hRun
  · rename_i units bench hUnits
    cases hRun
    obtain ⟨readings, written, hReadings, hWritten, hCodes, hEntries⟩ :=
      written_of_compileUnits hUnits
    have hEntries : bench.registry.entries = written.flatten.map (·.entry) := hEntries
    have hItems := render_of_written hWritten
    have hLength : bench.registry.entries.length = written.flatten.length := by
      rw [hEntries, List.length_map]
    refine ⟨readings, written, hReadings, hWritten, hCodes, bench.registry.length_column,
      bench.registry.length_enabledColumn, hItems.length_eq.trans hLength.symm, ?_⟩
    intro p hp
    dsimp only at hp
    have hRule : p < (readings.flatMap Reading.rules).length := by
      rw [hItems.length_eq]
      omega
    have hItem : p < written.flatten.length := by omega
    have hRender := hItems.get hRule hItem
    refine ⟨_, _, List.getElem?_eq_getElem hRule, List.getElem?_eq_getElem hItem, hRender, ?_⟩
    apply Registry.shows_of_render hRender
    rw [hEntries, List.getElem?_map, List.getElem?_eq_getElem hItem]
    rfl
  · cases hRun

/-- A rule without lines and a rule with a message, and in the next unit a rule of the same name
with a table: its class has the function to drop keys and no function for messages, and so have the
columns at its position. -/
theorem columns_of_compile_two_units :
    ∃ inputs compilation rule code,
      inputs =
        [⟨"u", [⟨"1", "<identifier>b</identifier>\n<identifier>a</identifier>\n" ++
          "<autogen>--ShowStatusMessage-- 1</autogen>"⟩]⟩,
        ⟨"v", [⟨"2", "<identifier>a</identifier>\n" ++
          "<autogen>--DropKeyAfterRemap-- KeyCode::A</autogen>"⟩]⟩] ∧
      (compile { resolver := .constant 7 } inputs).1 = .ok compilation ∧
      compilation.registry.column .dropKey =
        ["NULL", "NULL", "RemapClass_a::remap_dropkeyafterremap"] ∧
      compilation.registry.column .statusMessage =
        ["NULL", "RemapClass_a::get_statusmessage", "NULL"] ∧
      compilation.registry.enabledColumn =
        ["NULL", "RemapClass_a::enabled", "RemapClass_a::enabled"] ∧
      compilation.registry.Shows (.constant 7) 2 rule code ∧
      compilation.units.getLast?.map (·.code) = some code ∧
      code =
        "class RemapClass_a \x7b\npublic:\nstatic void initialize(void) \x7b\n\x7b\n" ++
          "  const unsigned int vec[] = \x7b " ++
          "static_cast<unsigned int>(BRIDGE_REMAPTYPE_DROPKEYAFTERREMAP)," ++
          "static_cast<unsigned int>(BRIDGE_DATATYPE_KEYCODE),7 \x7d;\n" ++
          "  value_[0].initialize_remap(vec, sizeof(vec) / sizeof(vec[0]));\n\x7d\n\x7d\n" ++
          "static void terminate(void) \x7b\n" ++
          "  for (size_t i = 0; i < sizeof(value_) / sizeof(value_[0]); ++i) \x7b\n" ++
          "    value_[i].terminate();\n  \x7d\n\x7d\n" ++
          "static bool remap_dropkeyafterremap(const Params_KeyboardEventCallBack& params) \x7b\n" ++
          "if (! enabled()) return false;\nif (value_[0].drop(params)) return true;\n" ++
          "return false;\n\x7d\n" ++
          "static bool enabled(void) \x7b\n" ++
          "return config.enabled_flags[7] && ! config.notsave_passthrough;\n\x7d\n" ++
          "\nprivate:\nstatic RemapClass::Item value_[1];\n\x7d;\n" ++
          "RemapClass::Item RemapClass_a::value_[1];\n\n\n" := by
  generalize hCompiler : ({ resolver := .constant 7 } : Compiler) = compiler
  obtain ⟨inputs, hInputs⟩ : ∃ inputs : List UnitInput, inputs =
      [⟨"u", [⟨"1", "<identifier>b</identifier>\n<identifier>a</identifier>\n" ++
        "<autogen>--ShowStatusMessage-- 1</autogen>"⟩]⟩,
      ⟨"v", [⟨"2", "<identifier>a</identifier>\n" ++
        "<autogen>--DropKeyAfterRemap-- KeyCode::A</autogen>"⟩]⟩] :=
    ⟨_, rfl⟩
  obtain ⟨code, hCode⟩ : ∃ code : String, code =
      "class RemapClass_a \x7b\npublic:\nstatic void initialize(void) \x7b\n\x7b\n" ++
        "  const unsigned int vec[] = \x7b " ++
        "static_cast<unsigned int>(BRIDGE_REMAPTYPE_DROPKEYAFTERREMAP)," ++
        "static_cast<unsigned int>(BRIDGE_DATATYPE_KEYCODE),7 \x7d;\n" ++
        "  value_[0].initialize_remap(vec, sizeof(vec) / sizeof(vec[0]));\n\x7d\n\x7d\n" ++
        "static void terminate(void) \x7b\n" ++
        "  for (size_t i = 0; i < sizeof(value_) / sizeof(value_[0]); ++i) \x7b\n" ++
        "    value_[i].terminate();\n  \x7d\n\x7d\n" ++
        "static bool remap_dropkeyafterremap(const Params_KeyboardEventCallBack& params) \x7b\n" ++
        "if (! enabled()) return false;\nif (value_[0].drop(params)) return true;\n" ++
        "return false;\n\x7d\n" ++
        "static bool enabled(void) \x7b\n" ++
        "return config.enabled_flags[7] && ! config.notsave_passthrough;\n\x7d\n" ++
        "\nprivate:\nstatic RemapClass::Item value_[1];\n\x7d;\n" ++
        "RemapClass::Item RemapClass_a::value_[1];\n\n\n" :=
    ⟨_, rfl⟩
  obtain ⟨hFacts, hText⟩ :
      (compiler.compile inputs).1.toOption.map (fun compilation =>
        (compilation.registry.column .dropKey, compilation.registry.column .statusMessage,
          compilation.registry.enabledColumn, compilation.units.getLast?.map (·.code))) =
        some (["NULL", "NULL", "RemapClass_a::remap_dropkeyafterremap"],
          ["NULL", "RemapClass_a::get_statusmessage", "NULL"],
          ["NULL", "RemapClass_a::enabled", "RemapClass_a::enabled"], some code) ∧
      (compiler.readUnits inputs {}).toOption.map (fun readings =>
        (readings.flatMap Reading.rules)[2]?.map fun rule =>
          (rule.render compiler.resolver).toOption.map (·.code)) = some (some (some code)) := by
    subst hCompiler hInputs hCode
    decide +kernel
  cases hRun : (compiler.compile inputs).1 with
  | error cause =>
    rw [hRun] at hFacts
    cases hFacts
  | ok compilation =>
    rw [hRun] at hFacts
    have hFacts := Option.some.inj hFacts
    simp only [Prod.mk.injEq] at hFacts
    obtain ⟨hDrop, hMessage, hEnabled, hLast⟩ := hFacts
    obtain ⟨_, _, hReadings, _, _, _, hLength, _, hShows⟩ := columns_of_compile hRun
    rw [hEnabled] at hLength
    obtain ⟨rule, item, hRule, _, hRender, hShows⟩ := hShows 2 (by rw [← hLength]; decide)
    rw [hReadings] at hText
    have hItem : item.code = code := by
      simpa [Except.toOption, hRule, hRender] using hText
    rw [hItem, ← hCompiler] at hShows
    exact ⟨inputs, compilation, rule, code, hInputs, hRun, hDrop, hMessage, hEnabled, hShows,
      hLast, hCode⟩

end Compiler

end KeyRemap
