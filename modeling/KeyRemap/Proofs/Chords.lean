import KeyRemap.Proofs.Numerals
import KeyRemap.Proofs.Operands
import KeyRemap.Proofs.Slots
import KeyRemap.Proofs.SymbolLookup
import Mathlib.Data.List.Nodup

/-!
# Chords and their pseudo keys

A chord is a line of a rule that asks for simultaneous presses. It takes the next suffix and gets
the pseudo key of that suffix as the first group of its table. Suffixes go on from one unit of a run
to the next, while slots start anew, so over the whole run the chords are numbered in the order in
which they are written, and no two of them get one pseudo key.

* `Rule.takesChords_compileLine`: a line takes a suffix exactly if it is a chord.
* `ChordsCompiled`: the chords read so far have their tables; each part preserves it.
* `Compiler.chordTables_readUnits`: the chord tables of a run, one for each chord, in order.
* `Compiler.pseudoKeys_of_compile`: the pseudo keys of a run.
-/

namespace KeyRemap

/-! ## Chords in a text -/

/-- A line that asks for simultaneous presses: the rule it belongs to, and the parameters. -/
structure Chord where
  rule : String
  params : String
  deriving DecidableEq, Repr

/-- The chord on a line of a rule. A line that the guard takes asks for nothing. -/
def GuardStyle.chord? (style : GuardStyle) (rule line : String) : Option Chord :=
  match style.clause? line, Annotation.read? line with
  | some _, _ => Option.none
  | Option.none, Option.none => Option.none
  | Option.none, some found =>
    if Operation.ofName? found.operation = some .simultaneousKeyPresses then
      some { rule, params := found.params }
    else Option.none

/-- The chords of a part, in the order of its lines. -/
def Part.chords (style : GuardStyle) (part : Part) : List Chord :=
  part.lines.filterMap (style.chord? part.name)

/-- The chords of a unit, in the order of its sources and their lines. -/
def UnitInput.chords (style : GuardStyle) (input : UnitInput) : List Chord :=
  (input.sources.flatMap Source.parts).flatMap (Part.chords style)

/-! ## The pseudo key in front of the operands -/

theorem isInert_of_mem_repr {n : Nat} {c : Char} (h : c ∈ n.repr.toList) : Text.IsInert c := by
  have hDigit := isDigit_of_mem_repr h
  refine ⟨?_, ?_, Text.isBlank_of_isDigit hDigit⟩
  · rintro rfl
    exact absurd hDigit (by decide)
  · rintro rfl
    exact absurd hDigit (by decide)

/-- The token of a pseudo key can stand in a parameter text: no character of it separates
anything. -/
theorem isInert_of_mem_pseudoKey (k : Nat) :
    ∀ c ∈ (Operand.token { kind := .keyCode, symbol := pseudoKey k }).toList, Text.IsInert c := by
  have hFixed : ((OperandKind.keyCode.name ++ "::" ++ pseudoKeyStem).toList.all
      fun c => decide (Text.IsInert c)) = true := by
    decide
  have hToken : (Operand.token { kind := .keyCode, symbol := pseudoKey k }).toList =
      (OperandKind.keyCode.name ++ "::" ++ pseudoKeyStem).toList ++ k.repr.toList := by
    simp [Operand.token, pseudoKey]
  intro c hc
  rw [hToken] at hc
  rcases List.mem_append.mp hc with hc | hc
  · exact of_decide_eq_true (List.all_eq_true.mp hFixed c hc)
  · exact isInert_of_mem_repr hc

/-- The operands of a chord are accepted only when its pseudo key is known and its own parameters
are accepted; then the pseudo key makes the first group. -/
theorem exists_of_classifyParams_pseudoKey {resolver : Resolver} {k : Nat} {params : String}
    {groups : List OperandGroup}
    (h : OperandGroup.classifyParams resolver
      (OperandKind.keyCode.name ++ "::" ++ pseudoKey k ++ ", " ++ params) = .ok groups) :
    ∃ code own, resolver.code? .keyCode (pseudoKey k) = some code ∧
      OperandGroup.classifyParams resolver params = .ok own ∧
      groups = .single .keyCode code :: own := by
  have hSymbol : pseudoKey k ≠ "" := by simp [pseudoKey, pseudoKeyStem]
  have hToken := OperandGroup.classifyParams_token resolver hSymbol (isInert_of_mem_pseudoKey k)
    params
  rw [Operand.token, h] at hToken
  cases hCode : resolver.code? .keyCode (pseudoKey k) with
  | none =>
    rw [hCode] at hToken
    cases hToken
  | some code =>
    rw [hCode] at hToken
    cases hOwn : OperandGroup.classifyParams resolver params with
    | error cause =>
      rw [hOwn] at hToken
      cases hToken
    | ok own =>
      rw [hOwn] at hToken
      cases hToken
      exact ⟨code, own, rfl, rfl, rfl⟩

/-! ## The tables of chords -/

/-- A table with its slot and the rule that has it. -/
structure RuleTable where
  rule : String
  slot : Nat
  table : OperandTable
  deriving DecidableEq, Repr

/-- The tables for simultaneous presses among those of a rule. -/
def Rule.chordTables (rule : Rule) : List RuleTable :=
  (rule.tables.filter fun (_, table) => table.operation = .simultaneousKeyPresses).map
    fun (slot, table) => { rule := rule.name, slot, table }

/-- Whether a table is not behind another one. -/
def RuleTable.slotLe (first second : RuleTable) : Bool :=
  first.slot ≤ second.slot

/-- The tables for simultaneous presses of all rules, in the order of their slots. -/
def Reading.chordTables (reading : Reading) : List RuleTable :=
  (reading.rules.flatMap Rule.chordTables).mergeSort RuleTable.slotLe

/-- The chord with a given number has a table in its rule, which begins with the pseudo key of that
number and goes on with the groups of the chord's own parameters. -/
def Chord.CompilesTo (resolver : Resolver) (chord : Chord) (number : Nat) (placed : RuleTable) :
    Prop :=
  placed.rule = chord.rule ∧ placed.table.operation = .simultaneousKeyPresses ∧
  ∃ code own,
    resolver.code? .keyCode (pseudoKey number) = some code ∧
    OperandGroup.classifyParams resolver chord.params = .ok own ∧
    placed.table.groups = .single .keyCode code :: own

/-- Some chords, numbered from a given number on, and their tables, one for each. -/
def Chord.AllCompile (resolver : Resolver) (first : Nat) (chords : List Chord)
    (tables : List RuleTable) : Prop :=
  List.Forall₂ (fun (chord, number) placed => chord.CompilesTo resolver number placed)
    (chords.zipIdx first) tables

namespace Chord.AllCompile

variable {resolver : Resolver} {first : Nat}

theorem nil : AllCompile resolver first [] [] :=
  List.Forall₂.nil

theorem single {chord : Chord} {placed : RuleTable}
    (h : chord.CompilesTo resolver first placed) : AllCompile resolver first [chord] [placed] :=
  List.Forall₂.cons h List.Forall₂.nil

theorem append {chords more : List Chord} {tables moreTables : List RuleTable}
    (h : AllCompile resolver first chords tables)
    (hMore : AllCompile resolver (first + chords.length) more moreTables) :
    AllCompile resolver first (chords ++ more) (tables ++ moreTables) := by
  rw [AllCompile, List.zipIdx_append]
  exact List.rel_append h hMore

theorem length_eq {chords : List Chord} {tables : List RuleTable}
    (h : AllCompile resolver first chords tables) : tables.length = chords.length := by
  rw [← List.Forall₂.length_eq h, List.length_zipIdx]

end Chord.AllCompile

theorem Operation.operands_suffixes {operation : Operation} {params operands : String}
    {numbering after : Numbering} (hOther : operation ≠ .simultaneousKeyPresses)
    (h : operation.operands params numbering = (operands, after)) :
    after.suffixes = numbering.suffixes := by
  cases operation <;> cases h <;> first | rfl | exact absurd rfl hOther

namespace Rule

theorem chordTables_eq {rule rule' : Rule} (hName : rule'.name = rule.name)
    (hTables : rule'.tables = rule.tables) : rule'.chordTables = rule.chordTables := by
  rw [chordTables, hName, hTables, chordTables]

theorem chordTables_finalize (rule : Rule) : rule.finalize.chordTables = rule.chordTables :=
  chordTables_eq (Reading.name_finalize rule) (tables_finalize rule)

theorem chordTables_merge {first second : Rule} (hName : first.name = second.name) :
    (first.merge second).chordTables = first.chordTables ++ second.chordTables := by
  have hMerge : (first.merge second).name = first.name := rfl
  simp only [chordTables, tables_merge, hMerge, hName, List.filter_append, List.map_append]

theorem chordTables_addTable (rule : Rule) (slot : Nat) (table : OperandTable) :
    (rule.addTable slot table).chordTables = rule.chordTables ++
      if table.operation = .simultaneousKeyPresses then [{ rule := rule.name, slot, table }]
      else [] := by
  have hName : (rule.addTable slot table).name = rule.name := rfl
  rw [chordTables, hName, tables_addTable, List.filter_append, List.map_append, chordTables]
  by_cases h : table.operation = .simultaneousKeyPresses <;> simp [h]

/-- From one moment to another some chords were read, which have got suffixes and tables. -/
def TakesChords (resolver : Resolver) (chords : List Chord) (rule : Rule) (numbering : Numbering)
    (rule' : Rule) (after : Numbering) : Prop :=
  ∃ tables, rule'.chordTables = rule.chordTables ++ tables ∧
    Chord.AllCompile resolver numbering.suffixes chords tables ∧
    after.suffixes = numbering.suffixes + chords.length

theorem TakesChords.none {resolver : Resolver} {rule rule' : Rule} {numbering after : Numbering}
    (hTables : rule'.chordTables = rule.chordTables)
    (hSuffixes : after.suffixes = numbering.suffixes) :
    TakesChords resolver [] rule numbering rule' after :=
  ⟨[], by rw [hTables, List.append_nil], .nil, hSuffixes⟩

theorem TakesChords.trans {resolver : Resolver} {chords more : List Chord}
    {first second third : Rule} {before middle after : Numbering}
    (h₁ : TakesChords resolver chords first before second middle)
    (h₂ : TakesChords resolver more second middle third after) :
    TakesChords resolver (chords ++ more) first before third after := by
  obtain ⟨tables, hTables, hCompile, hSuffixes⟩ := h₁
  obtain ⟨moreTables, hMore, hMoreCompile, hMoreSuffixes⟩ := h₂
  rw [hSuffixes] at hMoreCompile hMoreSuffixes
  refine ⟨tables ++ moreTables, ?_, hCompile.append hMoreCompile, ?_⟩
  · rw [hMore, hTables, List.append_assoc]
  · rw [hMoreSuffixes, List.length_append, Nat.add_assoc]

theorem chord?_of_clause {rule : Rule} {line : String} {guard : Guard}
    (hOffer : rule.guard.offer line = some guard) :
    rule.guard.style.chord? rule.name line = none := by
  rw [Guard.offer_eq] at hOffer
  obtain ⟨clause, hClause, _⟩ := Option.map_eq_some_iff.mp hOffer
  simp only [GuardStyle.chord?, hClause]

theorem chord?_of_plain {rule : Rule} {line : String} (hRead : Annotation.read? line = none) :
    rule.guard.style.chord? rule.name line = none := by
  unfold GuardStyle.chord?
  rw [hRead]
  split <;> simp_all

theorem chord?_of_operation {rule : Rule} {line : String} {found : Annotation}
    {operation : Operation} (hOffer : rule.guard.offer line = none)
    (hRead : Annotation.read? line = some found)
    (hName : Operation.ofName? found.operation = some operation) :
    rule.guard.style.chord? rule.name line =
      if operation = .simultaneousKeyPresses then some { rule := rule.name, params := found.params }
      else none := by
  rw [Guard.offer_eq] at hOffer
  have hClause := Option.map_eq_none_iff.mp hOffer
  simp only [GuardStyle.chord?, hClause, hRead, hName, Option.some.injEq]

/-- A line that compiles takes a suffix and gets a table for it exactly if it is a chord. -/
theorem takesChords_compileLine {resolver : Resolver} {line : String} {numbering : Numbering}
    {rule : Rule} {outcome : LineOutcome}
    (hOk : (rule.compileLine resolver line numbering).outcome = .ok outcome) :
    TakesChords resolver (rule.guard.style.chord? rule.name line).toList rule numbering
      (rule.compileLine resolver line numbering).rule
      (rule.compileLine resolver line numbering).numbering := by
  have hCase := compileLine_case resolver line numbering rule
  generalize rule.compileLine resolver line numbering = step at hCase hOk ⊢
  cases hCase with
  | clause hOffer =>
    rw [chord?_of_clause hOffer]
    exact .none rfl rfl
  | plain hOffer hRead =>
    rw [chord?_of_plain hRead]
    exact .none rfl rfl
  | unknown => cases hOk
  | @expression _ operation statement hOffer hRead hName hStatement =>
    have hOther : operation ≠ .simultaneousKeyPresses := by
      rintro rfl
      cases hStatement
    rw [chord?_of_operation hOffer hRead hName, if_neg hOther]
    have hHook := (Operation.expression?_spec hStatement).1
    have hTables := tables_push rule statement (Hook.ne_setup_of_takesExpressions hHook)
    exact .none (chordTables_eq rfl hTables) rfl
  | refused => cases hOk
  | @table found operation params after groups hOffer hRead hName _ hOperands hGroups =>
    rw [chord?_of_operation hOffer hRead hName]
    by_cases hChord : operation = .simultaneousKeyPresses
    · subst hChord
      cases hOperands
      obtain ⟨code, own, hCode, hOwn, hAll⟩ := exists_of_classifyParams_pseudoKey hGroups
      rw [if_pos rfl]
      refine ⟨[⟨rule.name, numbering.slots, .simultaneousKeyPresses, groups⟩], ?_, ?_, rfl⟩
      · exact chordTables_addTable rule numbering.slots ⟨.simultaneousKeyPresses, groups⟩
      · exact .single ⟨rfl, rfl, code, own, hCode, hOwn, hAll⟩
    · rw [if_neg hChord]
      have hSuffixes := Operation.operands_suffixes hChord hOperands
      refine .none ?_ hSuffixes
      rw [chordTables_addTable, if_neg hChord, List.append_nil]

/-- The lines of a rule bring it a table for each chord among them. The induction is on the lines;
name and style of the rule, on which the chords depend, stay as they are. -/
theorem takesChords_compileLines {resolver : Resolver} {lines : List String} {rule rule' : Rule}
    {numbering after : Numbering} {style : GuardStyle} (hStyle : rule.guard.style = style)
    (hRun : rule.compileLines resolver lines numbering = .ok (rule', after)) :
    TakesChords resolver (lines.filterMap (style.chord? rule.name)) rule numbering rule' after := by
  induction lines generalizing rule numbering with
  | nil =>
    cases hRun
    exact .none rfl rfl
  | cons line lines ih =>
    have hName := name_compileLine resolver line numbering rule
    have hGuard := rule.guard_compileLine resolver line numbering
    simp only [compileLines] at hRun
    split at hRun
    · cases hRun
    · rename_i outcome hOutcome
      have hLine := takesChords_compileLine hOutcome
      rw [hStyle] at hLine
      have hNext : (rule.compileLine resolver line numbering).rule.guard.style = style := by
        rw [hGuard, Guard.style_extend, hStyle]
      have hRest := ih hNext hRun
      rw [hName] at hRest
      have hBoth := hLine.trans hRest
      rw [List.filterMap_cons]
      cases hChord : style.chord? rule.name line with
      | none => simpa [hChord] using hBoth
      | some chord => simpa [hChord] using hBoth

end Rule

/-! ## The chords of a unit -/

namespace Reading

theorem chordTables_collect (rules : List Rule) (part : Rule) :
    ((collect rules part).flatMap Rule.chordTables).Perm
      (rules.flatMap Rule.chordTables ++ part.chordTables) := by
  have hPerm := flatMap_collectInto_perm Rule.chordTables part.finalize rules
    fun _ _ hName => Rule.chordTables_merge hName
  rwa [Rule.chordTables_finalize] at hPerm

end Reading

/-- The chords read so far have their tables among those of the rules. In the order of the slots,
these are in the order of the chords. -/
structure ChordsCompiled (resolver : Resolver) (first : Nat) (chords : List Chord)
    (rules : List Rule) (numbering : Numbering) : Prop where
  tables : ∃ tables, (rules.flatMap Rule.chordTables).Perm tables ∧
    (tables.map RuleTable.slot).Sublist (List.range numbering.slots) ∧
    Chord.AllCompile resolver first chords tables
  suffixes : numbering.suffixes = first + chords.length

namespace ChordsCompiled

theorem start (resolver : Resolver) (numbering : Numbering) :
    ChordsCompiled resolver numbering.suffixes [] [] numbering where
  tables := ⟨[], .nil, List.nil_sublist _, .nil⟩
  suffixes := rfl

/-- The tables of a part are in slots behind all that have been taken. -/
theorem collect {compiler : Compiler} {first : Nat} {chords : List Chord} {rules : List Rule}
    {numbering after : Numbering} {part : Part} {rule : Rule}
    (h : ChordsCompiled compiler.resolver first chords rules numbering)
    (hPart : compiler.compilePart part numbering = .ok (rule, after)) :
    ChordsCompiled compiler.resolver first (chords ++ part.chords compiler.guards)
      (Reading.collect rules rule) after := by
  obtain ⟨tables, hPerm, hSlots, hCompile⟩ := h.tables
  obtain ⟨new, hNew, hNewCompile, hSuffixes⟩ :=
    Rule.takesChords_compileLines (Guard.style_fresh compiler.guards) hPart
  have hChords : rule.chordTables = new := by
    rw [hNew]
    simp [Rule.chordTables, Rule.tables, Rule.new]
  rw [h.suffixes] at hNewCompile hSuffixes
  refine ⟨⟨tables ++ new, ?_, ?_, hCompile.append hNewCompile⟩, ?_⟩
  · rw [← hChords]
    exact (Reading.chordTables_collect rules rule).trans (hPerm.append_right _)
  · have hNewSlots : (new.map RuleTable.slot).Sublist rule.tableSlots := by
      rw [← hChords, Rule.chordTables, List.map_map]
      exact List.filter_sublist.map Prod.fst
    rw [List.map_append, ← Compiler.tableSlots_compilePart hPart]
    exact hSlots.append hNewSlots
  · rw [hSuffixes, List.length_append, Nat.add_assoc]
    rfl

theorem collectParts {compiler : Compiler} {first : Nat} {chords : List Chord}
    {parts : List Part} {rules rules' : List Rule} {numbering after : Numbering}
    (h : ChordsCompiled compiler.resolver first chords rules numbering)
    (hRun : compiler.collectParts parts rules numbering = .ok (rules', after)) :
    ChordsCompiled compiler.resolver first (chords ++ parts.flatMap (Part.chords compiler.guards))
      rules' after := by
  induction parts generalizing chords rules numbering with
  | nil =>
    cases hRun
    simpa using h
  | cons part parts ih =>
    obtain ⟨rule, middle, hPart, hRest⟩ := Compiler.exists_of_collectParts_cons hRun
    have hNext := ih (h.collect hPart) hRest
    rwa [List.append_assoc] at hNext

end ChordsCompiled

/-- Tables in the order of their slots are what sorting gives. -/
theorem RuleTable.mergeSort_eq {tables ordered : List RuleTable} (hPerm : tables.Perm ordered)
    (hOrdered : (ordered.map slot).Pairwise (· < ·)) : tables.mergeSort slotLe = ordered := by
  have hTrans : ∀ a b c, slotLe a b = true → slotLe b c = true → slotLe a c = true := by
    intro a b c hab hbc
    simp only [slotLe, decide_eq_true_eq] at hab hbc ⊢
    omega
  have hTotal : ∀ a b, (slotLe a b || slotLe b a) = true := by
    intro a b
    simp only [slotLe, Bool.or_eq_true, decide_eq_true_eq]
    omega
  have hSame : (tables.mergeSort slotLe).Perm ordered :=
    (List.mergeSort_perm tables slotLe).trans hPerm
  have hInjective := List.inj_on_of_nodup_map (hOrdered.imp Nat.ne_of_lt)
  refine List.Perm.eq_of_pairwise ?_ (List.pairwise_mergeSort hTrans hTotal tables) ?_ hSame
  · intro first second hFirst hSecond hLe hGe
    simp only [slotLe, decide_eq_true_eq] at hLe hGe
    exact hInjective (hSame.mem_iff.mp hFirst) hSecond (Nat.le_antisymm hLe hGe)
  · refine (List.pairwise_map.mp hOrdered).imp ?_
    intro first second hLt
    simpa [slotLe] using Nat.le_of_lt hLt

namespace Compiler

theorem chordTables_readSources {compiler : Compiler} {sources : List Source}
    {numbering : Numbering} {reading : Reading}
    (hRun : compiler.readSources sources { numbering } = .ok () reading) :
    Chord.AllCompile compiler.resolver numbering.suffixes
      ((sources.flatMap Source.parts).flatMap (Part.chords compiler.guards)) reading.chordTables ∧
    reading.numbering.suffixes = numbering.suffixes +
      ((sources.flatMap Source.parts).flatMap (Part.chords compiler.guards)).length := by
  obtain ⟨⟨tables, hPerm, hSlots, hCompile⟩, hSuffixes⟩ :=
    (ChordsCompiled.start compiler.resolver numbering).collectParts
      (collectParts_of_readSources hRun)
  have hOrdered : reading.chordTables = tables :=
    RuleTable.mergeSort_eq hPerm (List.pairwise_lt_range.sublist hSlots)
  rw [hOrdered]
  exact ⟨hCompile, hSuffixes⟩

/-! ## The chords of a run -/

theorem exists_of_readUnits_cons {compiler : Compiler} {input : UnitInput}
    {inputs : List UnitInput} {numbering : Numbering} {readings : List Reading}
    (h : compiler.readUnits (input :: inputs) numbering = .ok readings) :
    ∃ reading rest, readings = reading :: rest ∧
      compiler.readSources input.sources { numbering } = .ok () reading ∧
      compiler.readUnits inputs reading.numbering.nextFile = .ok rest := by
  simp only [readUnits] at h
  split at h
  · cases h
  · rename_i reading hRead
    cases hRest : compiler.readUnits inputs reading.numbering.nextFile with
    | error cause =>
      rw [hRest] at h
      cases h
    | ok rest =>
      rw [hRest] at h
      cases h
      exact ⟨reading, rest, rfl, hRead, hRest⟩

/-- The chords of all units are numbered without a break, whatever the unit. -/
theorem chordTables_readUnits {compiler : Compiler} {inputs : List UnitInput}
    {numbering : Numbering} {readings : List Reading}
    (h : compiler.readUnits inputs numbering = .ok readings) :
    Chord.AllCompile compiler.resolver numbering.suffixes
      (inputs.flatMap (UnitInput.chords compiler.guards)) (readings.flatMap Reading.chordTables) ∧
    (readings.map fun reading => reading.chordTables.length) =
      inputs.map fun input => (input.chords compiler.guards).length := by
  induction inputs generalizing numbering readings with
  | nil =>
    cases h
    exact ⟨.nil, rfl⟩
  | cons input inputs ih =>
    obtain ⟨reading, rest, rfl, hRead, hRest⟩ := exists_of_readUnits_cons h
    obtain ⟨hCompile, hSuffixes⟩ := chordTables_readSources hRead
    obtain ⟨hMore, hLengths⟩ := ih hRest
    rw [List.flatMap_cons, List.flatMap_cons]
    refine ⟨hCompile.append ?_, ?_⟩
    · rw [← hSuffixes]
      exact hMore
    · rw [List.map_cons, List.map_cons, hLengths, hCompile.length_eq]
      rfl

end Compiler

/-! ## The pseudo keys of a run -/

/-- The code of the pseudo key that a table begins with. -/
def OperandTable.pseudoKeyCode? (table : OperandTable) : Option Nat :=
  table.groups.head?.map fun group => group.value.toNat

/-- Where the known pseudo keys are those below a count and have consecutive codes, so have the
tables of chords. -/
theorem Chord.AllCompile.pseudoKeyCodes {resolver : Resolver} {base count : Nat}
    (hKeys : ∀ k code, resolver.code? .keyCode (pseudoKey k) = some code →
      k < count ∧ code.toNat = base + k)
    {first : Nat} {chords : List Chord} {tables : List RuleTable}
    (h : AllCompile resolver first chords tables) :
    (∀ k < chords.length, first + k < count) ∧
    (tables.map fun placed => placed.table.pseudoKeyCode?) =
      (List.range' first chords.length).map fun k => some (base + k) := by
  induction chords generalizing first tables with
  | nil =>
    cases h
    exact ⟨fun k hk => absurd hk (Nat.not_lt_zero k), rfl⟩
  | cons chord chords ih =>
    rw [AllCompile, List.zipIdx_cons] at h
    obtain _ | ⟨⟨_, _, code, own, hCode, _, hGroups⟩, hRest⟩ := h
    obtain ⟨hLt, hValue⟩ := hKeys first code hCode
    obtain ⟨hBound, hCodes⟩ := ih hRest
    refine ⟨?_, ?_⟩
    · intro k hk
      cases k with
      | zero => exact hLt
      | succ k =>
        have := hBound k (Nat.lt_of_succ_lt_succ hk)
        omega
    · rw [List.map_cons, hCodes, List.length_cons, List.range'_succ, List.map_cons]
      simp [OperandTable.pseudoKeyCode?, hGroups, OperandGroup.single, hValue]

/-- What a loaded file knows about pseudo keys, if its key codes leave their names free. -/
theorem SymbolMap.pseudoKey_of_load {text : String} {file : SymbolFile} {symbols : SymbolMap}
    {range : PseudoKeyRange} (hFile : SymbolFile.parse? text = some file)
    (hLoad : load text = .ok symbols) (hRange : file.pseudoKeys = some range)
    (hFree : ∀ entry ∈ file.keyCodes.entries, ¬ pseudoKeyStem.toList <+: entry.1.toList)
    {k : Nat} {code : UInt32}
    (hCode : symbols.resolver.code? .keyCode (pseudoKey k) = some code) :
    k < range.count.toNat ∧ code.toNat = range.base.toNat + k := by
  have hOfFile : ofFile file = .ok symbols := by
    rwa [load, hFile] at hLoad
  rw [resolver_of_ofFile hOfFile] at hCode
  have hAnswer := (SymbolFile.code?_pseudoKey hRange hFree k).symm.trans hCode
  split at hAnswer
  · rename_i hLt
    cases hAnswer
    exact ⟨hLt, PseudoKeyRange.toNat_code ((ofFile_spec hOfFile).1 range hRange) hLt⟩
  · cases hAnswer

namespace Compiler

/-- **No two chords share a pseudo key.** Number the chords of a run in the order of units, sources
and lines. The rules of each unit have a table for each of its chords, which begins with the pseudo
key of the chord's number and goes on with the chord's own groups. Where the symbols come from a
file that leaves the names of pseudo keys to its range, there are no more chords than the range has
codes, the chords have its codes one after the other, and no code occurs twice. -/
theorem pseudoKeys_of_compile {compiler : Compiler} {inputs : List UnitInput}
    {compilation : Compilation} (hRun : (compiler.compile inputs).1 = .ok compilation) :
    ∃ readings, compiler.readUnits inputs {} = .ok readings ∧
      List.Forall₂ (fun reading unit => unit.rules = reading.rules.map Rule.name)
        readings compilation.units ∧
      (readings.map fun reading => reading.chordTables.length) =
        (inputs.map fun input => (input.chords compiler.guards).length) ∧
      List.Forall₂ (fun (chord, number) placed => chord.CompilesTo compiler.resolver number placed)
        (inputs.flatMap (UnitInput.chords compiler.guards)).zipIdx
        (readings.flatMap Reading.chordTables) ∧
      ∀ text file symbols range,
        SymbolFile.parse? text = some file → SymbolMap.load text = .ok symbols →
        compiler.resolver = symbols.resolver → file.pseudoKeys = some range →
        (∀ entry ∈ file.keyCodes.entries, ¬ pseudoKeyStem.toList <+: entry.1.toList) →
        (inputs.flatMap (UnitInput.chords compiler.guards)).length ≤ range.count.toNat ∧
        ((readings.flatMap Reading.chordTables).map fun placed => placed.table.pseudoKeyCode?) =
          (List.range (inputs.flatMap (UnitInput.chords compiler.guards)).length).map
            (fun k => some (range.base.toNat + k)) ∧
        ((readings.flatMap Reading.chordTables).map fun placed =>
          placed.table.pseudoKeyCode?).Nodup := by
  unfold compile at hRun
  split at hRun
  · rename_i units after hUnits
    cases hRun
    have hFresh : ({} : Workbench).numbering.slots = 0 := rfl
    obtain ⟨readings, hReadings, hTaken⟩ := slotsTaken_of_compileUnits hFresh hUnits
    obtain ⟨hCompile, hLengths⟩ := chordTables_readUnits hReadings
    refine ⟨readings, hReadings, hTaken.imp fun _ _ h => h.1, hLengths, hCompile, ?_⟩
    intro text file symbols range hFile hLoad hResolver hRange hFree
    obtain ⟨hBound, hCodes⟩ := Chord.AllCompile.pseudoKeyCodes
      (fun k code hCode =>
        SymbolMap.pseudoKey_of_load hFile hLoad hRange hFree (hResolver ▸ hCode)) hCompile
    have hInjective : Function.Injective fun k => some (range.base.toNat + k) := by
      intro i j hEq
      simpa using hEq
    generalize (inputs.flatMap (UnitInput.chords compiler.guards)).length = n at hBound hCodes ⊢
    have hRangeEq : List.range' ({} : Workbench).numbering.suffixes n = List.range n :=
      List.range_eq_range'.symm
    rw [hRangeEq] at hCodes
    refine ⟨?_, hCodes, ?_⟩
    · cases n with
      | zero => exact Nat.zero_le _
      | succ n =>
        have hLast : 0 + n < range.count.toNat := hBound n (Nat.lt_succ_self n)
        omega
    · rw [hCodes]
      exact List.nodup_range.map hInjective
  · cases hRun

/-- Two units with chords, and a symbol file with a key code and a range: the suffixes go on in the
second unit, where a filter and another rule stand before the chord. -/
theorem pseudoKeys_of_compile_two_units :
    ∃ text inputs symbols compilation readings,
      text = "[keycode]\nA = 5\n[config_index]\nr = 0\n[simultaneous]\nbase = 768\ncount = 3" ∧
      inputs =
        [⟨"u", [⟨"1", "<identifier>r</identifier>\n" ++
          "<autogen>--SimultaneousKeyPresses-- KeyCode::A</autogen>\n" ++
          "<autogen>--SimultaneousKeyPresses-- KeyCode::A, KeyCode::A</autogen>"⟩]⟩,
        ⟨"v", [⟨"2", "<identifier>r</identifier>\n<only>T</only>\n" ++
          "<autogen>--KeyToKey-- KeyCode::A</autogen>\n" ++
          "<autogen>--SimultaneousKeyPresses-- KeyCode::A</autogen>"⟩]⟩] ∧
      SymbolMap.load text = .ok symbols ∧
      (compile { resolver := symbols.resolver } inputs).1 = .ok compilation ∧
      readUnits { resolver := symbols.resolver } inputs {} = .ok readings ∧
      (readings.map fun reading => reading.chordTables.length) = [2, 1] ∧
      ((readings.flatMap Reading.chordTables).map fun placed => placed.table.pseudoKeyCode?) =
        [some 768, some 769, some 770] := by
  obtain ⟨text, hText⟩ : ∃ text : String, text =
      "[keycode]\nA = 5\n[config_index]\nr = 0\n[simultaneous]\nbase = 768\ncount = 3" :=
    ⟨_, rfl⟩
  obtain ⟨inputs, hInputs⟩ : ∃ inputs : List UnitInput, inputs =
      [⟨"u", [⟨"1", "<identifier>r</identifier>\n" ++
        "<autogen>--SimultaneousKeyPresses-- KeyCode::A</autogen>\n" ++
        "<autogen>--SimultaneousKeyPresses-- KeyCode::A, KeyCode::A</autogen>"⟩]⟩,
      ⟨"v", [⟨"2", "<identifier>r</identifier>\n<only>T</only>\n" ++
        "<autogen>--KeyToKey-- KeyCode::A</autogen>\n" ++
        "<autogen>--SimultaneousKeyPresses-- KeyCode::A</autogen>"⟩]⟩] :=
    ⟨_, rfl⟩
  -- the answers of the loaded map are evaluated as those of the file
  obtain ⟨hFacts, hLoaded, hChords⟩ :
      (SymbolFile.parse? text).map (fun file =>
        ((compile { resolver := file.resolver } inputs).1.isOk, file.pseudoKeys,
          file.keyCodes.entries)) = some (true, some ⟨768, 3⟩, [("A", 5)]) ∧
      (SymbolMap.load text).isOk = true ∧
      (inputs.map fun input => (input.chords .filter).length) = [2, 1] := by
    subst hText hInputs
    decide +kernel
  obtain ⟨file, hFile, hFacts⟩ := Option.map_eq_some_iff.mp hFacts
  simp only [Prod.mk.injEq] at hFacts
  obtain ⟨hOk, hRange, hKeyCodes⟩ := hFacts
  cases hLoad : SymbolMap.load text with
  | error cause =>
    rw [hLoad] at hLoaded
    cases hLoaded
  | ok symbols =>
    have hOfFile : SymbolMap.ofFile file = .ok symbols := by
      rwa [SymbolMap.load, hFile] at hLoad
    rw [← SymbolMap.resolver_of_ofFile hOfFile] at hOk
    cases hRun : (compile { resolver := symbols.resolver } inputs).1 with
    | error cause =>
      rw [hRun] at hOk
      cases hOk
    | ok compilation =>
      obtain ⟨readings, hReadings, _, hLengths, _, hCodes⟩ := pseudoKeys_of_compile hRun
      have hFree : ∀ entry ∈ file.keyCodes.entries,
          ¬ pseudoKeyStem.toList <+: entry.1.toList := by
        rw [hKeyCodes]
        decide
      obtain ⟨_, hAll, _⟩ := hCodes text file symbols _ hFile hLoad rfl hRange hFree
      refine ⟨text, inputs, symbols, compilation, readings, hText, hInputs, hLoad, hRun,
        hReadings, hLengths.trans hChords, ?_⟩
      rw [hAll, List.length_flatMap, hChords]
      rfl

end Compiler

end KeyRemap
