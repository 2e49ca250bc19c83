import KeyRemap.Proofs.Columns
import KeyRemap.Proofs.Numerals
import KeyRemap.Proofs.SymbolLookup
import Mathlib.Data.List.Nodup

/-!
# Enable flags

The class of a rule has a predicate that reads the flag of the rule. A symbol file that is accepted
gives no flag to two rules, and a rule gets its flag by its name. So in a run, over all its units,
two classes read one flag exactly if they are classes of one rule.

* `SymbolMap.eq_of_flag?_eq`: in a loaded map a flag belongs to one rule.
* `Rule.ReadsFlag`: the predicate in a class text reads a flag, read off the text.
* `Rule.readsFlag_iff`: the flag in the text of a rule is the one its name is looked up to.
* `Compiler.flags_of_compile`: the flags that the classes of a run read.
-/

namespace KeyRemap

namespace SymbolMap

/-- In a loaded map no two rules have one flag. -/
theorem eq_of_flag?_eq {text : String} {symbols : SymbolMap} (hLoad : load text = .ok symbols)
    {rule other : String} {index : UInt32} (hRule : symbols.flag? rule = some index)
    (hOther : symbols.flag? other = some index) : rule = other := by
  obtain ⟨file, h⟩ : ∃ file, ofFile file = .ok symbols := by
    unfold load at hLoad
    split at hLoad
    · cases hLoad
    · exact ⟨_, hLoad⟩
  obtain ⟨_, _, hFlag⟩ := ofFile_spec h
  have hNodup : (file.flags.entries.map Prod.snd).Nodup := by
    unfold ofFile at h
    split at h
    · cases h
    · rename_i hAccepted
      exact (distinct_of_insertFlags hAccepted).1
  have hMem : ∀ name, symbols.flag? name = some index → (name, index) ∈ file.flags.entries := by
    intro name hName
    rw [hFlag, List.lookup_eq_some_iff] at hName
    obtain ⟨before, after, hSplit, _⟩ := hName
    rw [hSplit]
    simp
  have hEq := List.inj_on_of_nodup_map hNodup (hMem rule hRule) (hMem other hOther) rfl
  exact congrArg Prod.fst hEq

end SymbolMap

/-! ## The flag in a class text -/

namespace Enabled

/-- The code of a predicate that reads a flag, up to the flag's position. -/
def flagStem : String :=
  "return config.enabled_flags["

theorem eq_of_flagStem_append {i j : UInt32} {rest rest' : String}
    (h : flagStem ++ i.toNat.repr ++ "]" ++ rest = flagStem ++ j.toNat.repr ++ "]" ++ rest') :
    i = j := by
  have hBracket : "]".toList = [']'] := by decide
  have hList := congrArg String.toList h
  simp only [String.toList_append, List.append_assoc, List.append_cancel_left_eq, hBracket,
    List.singleton_append] at hList
  have hDigit : ']'.isDigit = false := by decide
  exact UInt32.toNat_inj.mp (eq_of_repr_append hDigit hDigit hList)

/-- A predicate that reads a flag has it at its place in the code. -/
theorem exists_code_of_index? {enabled : Enabled} {index : UInt32}
    (h : enabled.index? = some index) :
    ∃ condition ∈ ["", " && ! config.notsave_passthrough"],
      enabled.code = flagStem ++ index.toNat.repr ++ "]" ++ (condition ++ ";\n") := by
  cases enabled with
  | passthroughSwitch => cases h
  | flag found =>
    cases h
    have hEnd : "];\n" = "]" ++ ("" ++ ";\n") := by decide
    have hCode : code (flag index) = flagStem ++ index.toNat.repr ++ "];\n" := rfl
    refine ⟨"", by simp, ?_⟩
    rw [hCode, hEnd, ← String.append_assoc]
  | flagUnlessPassthrough found =>
    cases h
    have hEnd : "] && ! config.notsave_passthrough;\n" =
        "]" ++ (" && ! config.notsave_passthrough" ++ ";\n") := by
      decide
    have hCode : code (flagUnlessPassthrough index) =
        flagStem ++ index.toNat.repr ++ "] && ! config.notsave_passthrough;\n" := rfl
    refine ⟨" && ! config.notsave_passthrough", by simp, ?_⟩
    rw [hCode, hEnd, ← String.append_assoc]

/-- The flag that a predicate reads can be read off its code. -/
theorem index?_of_code {enabled : Enabled} {index : UInt32} {rest : String}
    (h : enabled.code = flagStem ++ index.toNat.repr ++ "]" ++ rest) :
    enabled.index? = some index := by
  cases hIndex : enabled.index? with
  | some found =>
    obtain ⟨condition, _, hCode⟩ := exists_code_of_index? hIndex
    rw [eq_of_flagStem_append (hCode.symm.trans h)]
  | none =>
    -- the code of the passthrough switch goes on in another way
    cases enabled with
    | passthroughSwitch =>
      have hList : "return config.notsave_passthrough;\n".toList = _ := congrArg String.toList h
      rw [String.toList_append, String.toList_append, String.toList_append, flagStem] at hList
      have hNext := congrArg List.head? (congrArg (List.drop 14) hList)
      simp at hNext
    | flag found => cases hIndex
    | flagUnlessPassthrough found => cases hIndex

/-- The predicate of a rule reads the flag that the rule's name is looked up to, if any. -/
theorem index?_of_ofRule {resolver : Resolver} {name : String} {enabled : Enabled}
    (h : ofRule resolver name = .ok enabled) :
    enabled.index? = if name = passthroughRule then none else resolver.flag? name := by
  unfold ofRule at h
  split at h
  · rename_i hName
    cases h
    rw [if_pos hName]
    rfl
  · rename_i hName
    rw [if_neg hName]
    split at h
    · cases h
    · rename_i hFlag
      split at h <;> cases h <;> exact hFlag.symm

end Enabled

namespace Rule

/-- The text is a class of the rule whose predicate reads a flag, and besides it at most the
passthrough switch. -/
def ReadsFlag (rule : Rule) (text : String) (index : UInt32) : Prop :=
  ∃ condition ∈ ["", " && ! config.notsave_passthrough"],
    text = rule.openingText ++ String.join (rule.definedHooks.map rule.hookText) ++
      ("static bool enabled(void) \x7b\n" ++
        (Enabled.flagStem ++ index.toNat.repr ++ "]" ++ (condition ++ ";\n")) ++ "\x7d\n") ++
      rule.storageText

/-- The flag in the text of a rule is the one that the rule's name is looked up to. -/
theorem readsFlag_iff {resolver : Resolver} {rule : Rule} {item : Rendered}
    (h : rule.render resolver = .ok item) {index : UInt32} :
    rule.ReadsFlag item.code index ↔
      rule.HasStatement ∧ rule.name ≠ passthroughRule ∧ resolver.flag? rule.name = some index := by
  rcases render_case h with ⟨hRule, hCode, _⟩ | ⟨hRule, _, enabled, hEnabled, hCode⟩
  · simp only [hRule, false_and, iff_false, hCode]
    rintro ⟨condition, _, hText⟩
    simp [openingText] at hText
  · have hClass : rule.classText enabled =
        rule.openingText ++ String.join (rule.definedHooks.map rule.hookText) ++
          ("static bool enabled(void) \x7b\n" ++ enabled.code ++ "\x7d\n") ++
          rule.storageText := rfl
    have hIndex : enabled.index? = some index ↔
        rule.name ≠ passthroughRule ∧ resolver.flag? rule.name = some index := by
      rw [Enabled.index?_of_ofRule hEnabled]
      by_cases hName : rule.name = passthroughRule <;> simp [hName]
    rw [← hIndex, hCode, hClass]
    simp only [hRule, true_and]
    constructor
    · rintro ⟨condition, _, hText⟩
      simp only [String.append_left_inj, String.append_right_inj] at hText
      exact Enabled.index?_of_code hText
    · intro hReads
      obtain ⟨condition, hCondition, hText⟩ := Enabled.exists_code_of_index? hReads
      refine ⟨condition, hCondition, ?_⟩
      rw [hText]

end Rule

/-! ## The flags of a run -/

namespace Compiler

/-- **No two rules share a flag.** Let the symbols of a run come from a symbol file, and take the
rules of all units of the run with their texts. A rule that is written as a class, other than the
rule of the passthrough switch, reads exactly one flag in its predicate; and two classes read one
flag exactly if their rules have one name, be they of one unit or of two. -/
theorem flags_of_compile {compiler : Compiler} {inputs : List UnitInput}
    {compilation : Compilation} {text : String} {symbols : SymbolMap}
    (hLoad : SymbolMap.load text = .ok symbols) (hResolver : compiler.resolver = symbols.resolver)
    (hRun : (compiler.compile inputs).1 = .ok compilation) :
    ∃ (readings : List Reading) (written : List (List Rule.Rendered)),
      compiler.readUnits inputs {} = .ok readings ∧
      List.Forall₂
        (fun reading items =>
          List.Forall₂ (fun rule item => rule.render compiler.resolver = .ok item)
            reading.rules items)
        readings written ∧
      List.Forall₂ (fun items unit => unit.code = String.join (items.map (·.code)))
        written compilation.units ∧
      (∀ rule ∈ readings.flatMap Reading.rules, ∀ item,
        rule.render compiler.resolver = .ok item → item.code ≠ "" →
        rule.name ≠ passthroughRule → ∃! index, rule.ReadsFlag item.code index) ∧
      ∀ first ∈ readings.flatMap Reading.rules, ∀ second ∈ readings.flatMap Reading.rules,
        ∀ item other, first.render compiler.resolver = .ok item →
        second.render compiler.resolver = .ok other →
        ∀ i j, first.ReadsFlag item.code i → second.ReadsFlag other.code j →
          (i = j ↔ first.name = second.name) := by
  unfold compile at hRun
  split at hRun
  · rename_i units bench hUnits
    cases hRun
    obtain ⟨readings, written, hReadings, hWritten, hCodes, _⟩ := written_of_compileUnits hUnits
    refine ⟨readings, written, hReadings, hWritten, hCodes, ?_, ?_⟩
    · intro rule _ item hRender hCode hName
      obtain ⟨hRule, enabled, hEnabled⟩ : rule.HasStatement ∧
          ∃ enabled, Enabled.ofRule compiler.resolver rule.name = .ok enabled := by
        rcases Rule.render_case hRender with ⟨_, hEmpty, _⟩ | ⟨hRule, _, enabled, hEnabled, _⟩
        · exact absurd hEmpty hCode
        · exact ⟨hRule, enabled, hEnabled⟩
      obtain ⟨index, hFlag⟩ : ∃ index, compiler.resolver.flag? rule.name = some index := by
        cases hFlag : compiler.resolver.flag? rule.name with
        | some index => exact ⟨index, rfl⟩
        | none =>
          rw [Enabled.ofRule, if_neg hName, hFlag] at hEnabled
          cases hEnabled
      refine ⟨index, (Rule.readsFlag_iff hRender).mpr ⟨hRule, hName, hFlag⟩, ?_⟩
      intro other hReads
      exact Option.some.inj (((Rule.readsFlag_iff hRender).mp hReads).2.2.symm.trans hFlag)
    · intro first _ second _ item other hFirst hSecond i j hI hJ
      obtain ⟨_, _, hI⟩ := (Rule.readsFlag_iff hFirst).mp hI
      obtain ⟨_, _, hJ⟩ := (Rule.readsFlag_iff hSecond).mp hJ
      rw [hResolver] at hI hJ
      constructor
      · rintro rfl
        exact SymbolMap.eq_of_flag?_eq hLoad hI hJ
      · intro hName
        rw [hName] at hI
        exact Option.some.inj (hI.symm.trans hJ)
  · cases hRun

/-- A rule in two units and one that stays active in passthrough: the first reads the same flag in
both units, the other another one. -/
theorem flags_of_compile_two_units :
    ∃ text inputs symbols compilation first second third one two three i j,
      text = "[config_index]\na = 3\npassthrough_b = 4" ∧
      inputs =
        [⟨"u", [⟨"1", "<identifier>a</identifier>\n" ++
          "<autogen>--ShowStatusMessage-- 1</autogen>\n<identifier>passthrough_b</identifier>\n" ++
          "<autogen>--ShowStatusMessage-- 2</autogen>"⟩]⟩,
        ⟨"v", [⟨"2", "<identifier>a</identifier>\n<autogen>--ShowStatusMessage-- 3</autogen>"⟩]⟩] ∧
      SymbolMap.load text = .ok symbols ∧
      (compile { resolver := symbols.resolver } inputs).1 = .ok compilation ∧
      [first, second, third].map Rule.name = ["a", "passthrough_b", "a"] ∧
      compilation.units.map (·.code) = [String.join [one, two], String.join [three]] ∧
      first.ReadsFlag one i ∧ second.ReadsFlag two j ∧ third.ReadsFlag three i ∧ i ≠ j := by
  obtain ⟨text, hText⟩ : ∃ text : String, text = "[config_index]\na = 3\npassthrough_b = 4" :=
    ⟨_, rfl⟩
  obtain ⟨inputs, hInputs⟩ : ∃ inputs : List UnitInput, inputs =
      [⟨"u", [⟨"1", "<identifier>a</identifier>\n" ++
        "<autogen>--ShowStatusMessage-- 1</autogen>\n<identifier>passthrough_b</identifier>\n" ++
        "<autogen>--ShowStatusMessage-- 2</autogen>"⟩]⟩,
      ⟨"v", [⟨"2", "<identifier>a</identifier>\n<autogen>--ShowStatusMessage-- 3</autogen>"⟩]⟩] :=
    ⟨_, rfl⟩
  -- the answers of the loaded map are evaluated as those of the file
  obtain ⟨hFacts, hLoaded⟩ :
      (SymbolFile.parse? text).map (fun file =>
        ((compile { resolver := file.resolver } inputs).1.isOk,
          (readUnits { resolver := file.resolver } inputs {}).toOption.map fun readings =>
            readings.map fun reading => reading.rules.map fun rule =>
              (rule.name, rule.isEmpty))) =
        some (true, some [[("a", false), ("passthrough_b", false)], [("a", false)]]) ∧
      (SymbolMap.load text).isOk = true := by
    subst hText hInputs
    decide +kernel
  obtain ⟨file, hFile, hFacts⟩ := Option.map_eq_some_iff.mp hFacts
  cases hLoad : SymbolMap.load text with
  | error cause =>
    rw [hLoad] at hLoaded
    cases hLoaded
  | ok symbols =>
    have hOfFile : SymbolMap.ofFile file = .ok symbols := by
      rwa [SymbolMap.load, hFile] at hLoad
    simp only [← SymbolMap.resolver_of_ofFile hOfFile, Prod.mk.injEq] at hFacts
    obtain ⟨hOk, hRules⟩ := hFacts
    cases hRun : (compile { resolver := symbols.resolver } inputs).1 with
    | error cause =>
      rw [hRun] at hOk
      cases hOk
    | ok compilation =>
      obtain ⟨readings, written, hReadings, hWritten, hCodes, hReads, hShared⟩ :=
        flags_of_compile hLoad rfl hRun
      rw [hReadings] at hRules
      have hRules := Option.some.inj hRules
      obtain ⟨u, v, rfl, hU, hV⟩ := exists_of_map_eq_pair hRules
      obtain ⟨first, second, hUFirst, hFirst, hSecond⟩ := exists_of_map_eq_pair hU
      obtain ⟨third, hVThird, hThird⟩ := List.map_eq_singleton_iff.mp hV
      obtain _ | ⟨hUItems, _ | ⟨hVItems, _ | _⟩⟩ := hWritten
      rw [hUFirst] at hUItems
      rw [hVThird] at hVItems
      obtain _ | ⟨hOne, _ | ⟨hTwo, _ | _⟩⟩ := hUItems
      obtain _ | ⟨hThree, _ | _⟩ := hVItems
      generalize hUnits : compilation.units = units at hCodes
      obtain _ | ⟨hUCode, _ | ⟨hVCode, _ | _⟩⟩ := hCodes
      simp only [Prod.mk.injEq] at hFirst hSecond hThird
      simp only [List.flatMap_cons, List.flatMap_nil, hUFirst, hVThird, List.append_nil,
        List.cons_append, List.nil_append] at hReads hShared
      have hIndex : ∀ rule ∈ [first, second, third], ∀ item,
          rule.render symbols.resolver = .ok item → rule.isEmpty = false →
          rule.name ≠ passthroughRule → ∃ index, rule.ReadsFlag item.code index := by
        intro rule hRule item hRender hEmpty hName
        have hCode : item.code ≠ "" := by simp [(Rule.render_spec hRender).2.1, hEmpty]
        exact (hReads rule hRule item hRender hCode hName).exists
      obtain ⟨i, hI⟩ := hIndex first (by simp) _ hOne hFirst.2 (by rw [hFirst.1]; decide)
      obtain ⟨j, hJ⟩ := hIndex second (by simp) _ hTwo hSecond.2 (by rw [hSecond.1]; decide)
      obtain ⟨k, hK⟩ := hIndex third (by simp) _ hThree hThird.2 (by rw [hThird.1]; decide)
      have hApart := hShared first (by simp) second (by simp) _ _ hOne hTwo i j hI hJ
      have hSame := hShared first (by simp) third (by simp) _ _ hOne hThree i k hI hK
      rw [hFirst.1, hSecond.1] at hApart
      rw [hFirst.1, hThird.1] at hSame
      obtain rfl := hSame.mpr rfl
      refine ⟨text, inputs, symbols, compilation, first, second, third, _, _, _, i, j, hText,
        hInputs, hLoad, hRun, ?_, ?_, hI, hJ, hK, ?_⟩
      · simp [hFirst.1, hSecond.1, hThird.1]
      · rw [hUnits, List.map_cons, List.map_cons, hUCode, hVCode]
        rfl
      · exact mt hApart.mp (by decide)

end Compiler

end KeyRemap
