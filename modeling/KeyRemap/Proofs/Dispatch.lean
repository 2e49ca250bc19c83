import KeyRemap.Proofs.Line

/-!
# Tables and the statements that use them

An operation with a table writes to several hooks: the table is set up in one of them and used in
others. Setting up and using stay in step in every rule that lines, closing and merging can make, in
whatever order, also where a line fails or a rule is closed late and its blocks are nested.

* `Rule.Reachable`: the rules that can arise.
* `Rule.InStep`: the statements of a rule follow from its tables; each operation preserves it.
* `Rule.Reachable.dispatch_of_tables`: hook by hook, what a reachable rule holds.
* `Rule.InStep.lt_slotCount`: a slot that occurs anywhere in such a rule is below its slot count.
-/

namespace KeyRemap

/-- Look-ups that know every name and give the same answer for all. -/
def Resolver.constant (answer : UInt32) : Resolver where
  code? _ _ := some answer
  flag? _ := some answer

/-! ## Statements without their blocks -/

namespace Statement

mutual

/-- A statement with every block replaced by what the block holds. -/
def flatten : Statement → List Statement
  | firstMatch _ body => flattenAll body
  | statement => [statement]

/-- Statements with every block replaced by what the block holds. -/
def flattenAll : List Statement → List Statement
  | [] => []
  | statement :: statements => flatten statement ++ flattenAll statements

end

@[simp]
theorem flattenAll_nil : flattenAll [] = [] := by
  simp only [flattenAll]

@[simp]
theorem flattenAll_append (first second : List Statement) :
    flattenAll (first ++ second) = flattenAll first ++ flattenAll second := by
  induction first with
  | nil => simp
  | cons statement first ih => simp only [List.cons_append, flattenAll, ih, List.append_assoc]

@[simp]
theorem flattenAll_block (guard : String) (body : List Statement) :
    flattenAll [firstMatch guard body] = flattenAll body := by
  simp only [flattenAll, flatten, List.append_nil]

def isBlock : Statement → Bool
  | firstMatch .. => true
  | _ => false

theorem flattenAll_of_not_isBlock {statements : List Statement}
    (h : ∀ statement ∈ statements, statement.isBlock = false) :
    flattenAll statements = statements := by
  induction statements with
  | nil => simp
  | cons statement statements ih =>
    have hHead : flatten statement = [statement] := by
      cases statement with
      | firstMatch guard body => exact absurd (h _ List.mem_cons_self) (by simp [isBlock])
      | _ => simp only [flatten]
    have hTail := ih fun other hOther => h other (List.mem_cons_of_mem _ hOther)
    simp only [flattenAll, hHead, hTail, List.singleton_append]

/-- Whether the statement holds an expression that an annotation gave it. -/
def isExpression : Statement → Bool
  | assignKeyboardType _ | returnStatusMessage _ => true
  | _ => false

/-- Slot and table of a statement that sets a table up. -/
def table? : Statement → Option (Nat × OperandTable)
  | setUpTable slot table => some (slot, table)
  | _ => none

/-- The slot that a statement names itself, not counting what a block holds. -/
def slot? : Statement → Option Nat
  | setUpTable slot _ | remap slot | remapSimultaneous slot | dropKey slot => some slot
  | assignKeyboardType _ | returnStatusMessage _ | firstMatch _ _ => none

theorem isBlock_of_isExpression {statement : Statement} (h : statement.isExpression = true) :
    statement.isBlock = false := by
  cases statement <;> first | rfl | cases h

theorem slot?_of_isExpression {statement : Statement} (h : statement.isExpression = true) :
    statement.slot? = none := by
  cases statement <;> first | rfl | cases h

theorem table?_of_isExpression {statement : Statement} (h : statement.isExpression = true) :
    statement.table? = none := by
  cases statement <;> first | rfl | cases h

end Statement

/-- Whether the hook takes expressions instead of statements that use a table. -/
def Hook.takesExpressions : Hook → Bool
  | keyboardType | statusMessage => true
  | _ => false

theorem Hook.ne_setup_of_takesExpressions {hook : Hook} (h : hook.takesExpressions = true) :
    hook ≠ setup := by
  rintro rfl
  cases h

theorem Hook.isFirstMatch_of_takesExpressions {hook : Hook} (h : hook.takesExpressions = true) :
    hook.isFirstMatch = false := by
  cases hook <;> first | rfl | cases h

namespace Operation

/-- The statements by which an operation uses its table at a hook. -/
def dispatchAt (operation : Operation) (slot : Nat) (hook : Hook) : List Statement :=
  ((operation.dispatch slot).filter fun pushed => pushed.1 = hook).map Prod.snd

theorem dispatchAt_setup (operation : Operation) (slot : Nat) :
    operation.dispatchAt slot .setup = [] := by
  cases operation <;> rfl

theorem dispatchAt_teardown (operation : Operation) (slot : Nat) :
    operation.dispatchAt slot .teardown = [] := by
  cases operation <;> rfl

theorem dispatchAt_remap (operation : Operation) (slot : Nat) {hook : Hook}
    (h : hook ∈ [Hook.key, .consumer, .pointing]) :
    operation.dispatchAt slot hook = if operation.hook = hook then [.remap slot] else [] := by
  simp only [List.mem_cons, List.not_mem_nil, or_false] at h
  rcases h with rfl | rfl | rfl <;> cases operation <;> rfl

theorem dispatchAt_simultaneous (operation : Operation) (slot : Nat) :
    operation.dispatchAt slot .simultaneous =
      if operation = simultaneousKeyPresses then [.remapSimultaneous slot] else [] := by
  cases operation <;> rfl

theorem dispatchAt_dropKey (operation : Operation) (slot : Nat) :
    operation.dispatchAt slot .dropKey =
      if operation = dropKeyAfterRemap then [.dropKey slot] else [] := by
  cases operation <;> rfl

theorem dispatchAt_of_takesExpressions {operation : Operation} (slot : Nat) {hook : Hook}
    (hTable : operation.needsTable = true) (hHook : hook.takesExpressions = true) :
    operation.dispatchAt slot hook = [] := by
  cases hook <;> cases hHook <;> cases operation <;> first | rfl | cases hTable

/-- What an operation puts into a hook for its table names the slot of the table, is no block and
sets no table up. -/
theorem dispatchAt_leaf {operation : Operation} {slot : Nat} {hook : Hook} {statement : Statement}
    (h : statement ∈ operation.dispatchAt slot hook) :
    statement.isBlock = false ∧ statement.slot? = some slot ∧ statement.table? = none := by
  have hLeaf : ∀ pushed ∈ operation.dispatch slot, pushed.2.isBlock = false ∧
      pushed.2.slot? = some slot ∧ pushed.2.table? = none := by
    cases operation <;> simp [dispatch, Statement.isBlock, Statement.slot?, Statement.table?]
  obtain ⟨pushed, hPushed, rfl⟩ := List.mem_map.mp h
  exact hLeaf pushed ((List.mem_filter.mp hPushed).1)

/-- A table is tried only in the hooks that stop at the first match. -/
theorem isFirstMatch_of_remap_mem_dispatchAt {operation : Operation} {slot slot' : Nat}
    {hook : Hook} (hTakes : hook.takesExpressions = false)
    (h : .remap slot ∈ operation.dispatchAt slot' hook) : hook.isFirstMatch = true := by
  have hUse : ∀ pushed ∈ operation.dispatch slot', pushed.2 = .remap slot →
      pushed.1.takesExpressions = true ∨ pushed.1.isFirstMatch = true := by
    cases operation <;>
      simp [dispatch, Operation.hook, Hook.takesExpressions, Hook.isFirstMatch]
  obtain ⟨pushed, hPushed, hStatement⟩ := List.mem_map.mp h
  obtain ⟨hMem, hHook⟩ := List.mem_filter.mp hPushed
  obtain rfl : pushed.1 = hook := by simpa using hHook
  rcases hUse pushed hMem hStatement with hExpression | hFirst
  · rw [hTakes] at hExpression
    cases hExpression
  · exact hFirst

theorem flattenAll_dispatchAt (operation : Operation) (slot : Nat) (hook : Hook) :
    Statement.flattenAll (operation.dispatchAt slot hook) = operation.dispatchAt slot hook :=
  Statement.flattenAll_of_not_isBlock fun _ h => (dispatchAt_leaf h).1

theorem expression?_spec {operation : Operation} {params : String} {statement : Statement}
    (h : operation.expression? params = some statement) :
    operation.hook.takesExpressions = true ∧ statement.isExpression = true := by
  cases operation <;> cases h <;> exact ⟨rfl, rfl⟩

end Operation

/-! ## The invariant -/

theorem foldr_max_append (first second : List Nat) :
    (first ++ second).foldr max 0 = max (first.foldr max 0) (second.foldr max 0) := by
  induction first with
  | nil => simp
  | cons n first ih => simp only [List.cons_append, List.foldr_cons, ih, Nat.max_assoc]

theorem lt_foldr_max_succ {slot : Nat} {slots : List Nat} (h : slot ∈ slots) :
    slot < (slots.map (· + 1)).foldr max 0 := by
  induction slots with
  | nil => cases h
  | cons first slots ih =>
    simp only [List.map_cons, List.foldr_cons]
    rcases List.mem_cons.mp h with rfl | h
    · omega
    · have := ih h
      omega

namespace Rule

/-- The tables that a rule sets up, with their slots. -/
def tables (rule : Rule) : List (Nat × OperandTable) :=
  (rule.fragments.get .setup).filterMap Statement.table?

def tableSlots (rule : Rule) : List Nat :=
  rule.tables.map Prod.fst

/-- The statements and the counts of a rule are what its tables ask for. -/
structure InStep (rule : Rule) : Prop where
  setup : rule.fragments.get .setup =
    rule.tables.map fun (slot, table) => .setUpTable slot table
  dispatch : ∀ hook, hook ≠ .setup → hook.takesExpressions = false →
    Statement.flattenAll (rule.fragments.get hook) =
      rule.tables.flatMap fun (slot, table) => table.operation.dispatchAt slot hook
  expressions : ∀ hook, hook.takesExpressions = true →
    ∀ statement ∈ rule.fragments.get hook, statement.isExpression = true
  unwrapped : ∀ hook, hook.isFirstMatch = false →
    Statement.flattenAll (rule.fragments.get hook) = rule.fragments.get hook
  tableCount : rule.tableCount = rule.tables.length
  slotCount : rule.slotCount = (rule.tableSlots.map (· + 1)).foldr max 0

theorem tables_push (rule : Rule) {hook : Hook} (statement : Statement) (h : hook ≠ .setup) :
    tables { rule with fragments := rule.fragments.push hook statement } = rule.tables := by
  simp [tables, Ne.symm h]

/-- An added table is set up in the setup hook and used in the others. -/
theorem get_addTable (rule : Rule) (slot : Nat) (table : OperandTable) (hook : Hook) :
    (rule.addTable slot table).fragments.get hook =
      if hook = .setup then rule.fragments.get .setup ++ [.setUpTable slot table]
      else rule.fragments.get hook ++ table.operation.dispatchAt slot hook := by
  unfold addTable
  rw [Fragments.get_pushAll, Fragments.get_push, ← Operation.dispatchAt]
  by_cases h : hook = .setup
  · subst h
    simp [Operation.dispatchAt_setup]
  · simp [h]

theorem tables_addTable (rule : Rule) (slot : Nat) (table : OperandTable) :
    (rule.addTable slot table).tables = rule.tables ++ [(slot, table)] := by
  unfold tables
  rw [get_addTable, if_pos rfl, List.filterMap_append]
  rfl

theorem get_finalize_of_not_isFirstMatch (rule : Rule) {hook : Hook}
    (h : hook.isFirstMatch = false) :
    rule.finalize.fragments.get hook = rule.fragments.get hook := by
  unfold finalize
  split
  · rfl
  · simp [h]

theorem flattenAll_get_finalize (rule : Rule) (hook : Hook) :
    Statement.flattenAll (rule.finalize.fragments.get hook) =
      Statement.flattenAll (rule.fragments.get hook) := by
  unfold finalize
  split
  · rfl
  · rw [Fragments.get_wrapFirstMatch]
    split
    · rw [Statement.flattenAll_block]
    · rfl

theorem tables_finalize (rule : Rule) : rule.finalize.tables = rule.tables := by
  unfold tables
  rw [get_finalize_of_not_isFirstMatch rule rfl]

theorem tables_merge (first second : Rule) :
    (first.merge second).tables = first.tables ++ second.tables := by
  simp [tables, merge]

namespace InStep

theorem new (name : String) (guard : Guard) : InStep (new name guard) where
  setup := by simp [tables, Rule.new]
  dispatch hook _ _ := by simp [tables, Rule.new]
  expressions hook _ statement h := by simp [Rule.new] at h
  unwrapped hook _ := by simp [Rule.new]
  tableCount := by simp [tables, Rule.new]
  slotCount := by simp [tableSlots, tables, Rule.new]

theorem setGuard {rule : Rule} (h : InStep rule) (guard : Guard) :
    InStep { rule with guard } :=
  ⟨h.setup, h.dispatch, h.expressions, h.unwrapped, h.tableCount, h.slotCount⟩

theorem push {rule : Rule} (h : InStep rule) {hook : Hook} {statement : Statement}
    (hHook : hook.takesExpressions = true) (hStatement : statement.isExpression = true) :
    InStep { rule with fragments := rule.fragments.push hook statement } := by
  have hSetup := Hook.ne_setup_of_takesExpressions hHook
  have hTables := tables_push rule statement hSetup
  have hFlat : Statement.flattenAll [statement] = [statement] := by
    apply Statement.flattenAll_of_not_isBlock
    intro other hOther
    rw [List.mem_singleton.mp hOther]
    exact Statement.isBlock_of_isExpression hStatement
  refine ⟨?_, ?_, ?_, ?_, ?_, ?_⟩
  · simpa [hTables, Ne.symm hSetup] using h.setup
  · intro other hOther hTakes
    have hNe : other ≠ hook := by
      rintro rfl
      rw [hTakes] at hHook
      cases hHook
    simpa [hTables, hNe] using h.dispatch other hOther hTakes
  · intro other hTakes other' hMem
    by_cases hEq : other = hook
    · simp only [Fragments.get_push, hEq, if_true, List.mem_append, List.mem_singleton] at hMem
      rcases hMem with hMem | rfl
      · exact h.expressions hook hHook other' hMem
      · exact hStatement
    · simp only [Fragments.get_push, hEq, if_false] at hMem
      exact h.expressions other hTakes other' hMem
  · intro other hOther
    have hOld := h.unwrapped other hOther
    by_cases hEq : other = hook
    · simp only [Fragments.get_push, hEq, if_true] at hOld ⊢
      rw [Statement.flattenAll_append, hFlat, hOld]
    · simpa [hEq] using hOld
  · simpa [hTables] using h.tableCount
  · simpa [tableSlots, hTables] using h.slotCount

theorem addTable {rule : Rule} (h : InStep rule) (slot : Nat) {table : OperandTable}
    (hTable : table.operation.needsTable = true) : InStep (rule.addTable slot table) := by
  refine ⟨?_, ?_, ?_, ?_, ?_, ?_⟩
  · rw [get_addTable, if_pos rfl, tables_addTable, List.map_append, h.setup]
    rfl
  · intro hook hHook hTakes
    rw [get_addTable, if_neg hHook, tables_addTable, Statement.flattenAll_append,
      h.dispatch hook hHook hTakes, Operation.flattenAll_dispatchAt, List.flatMap_append]
    simp
  · intro hook hTakes statement hMem
    rw [get_addTable, if_neg (Hook.ne_setup_of_takesExpressions hTakes),
      Operation.dispatchAt_of_takesExpressions slot hTable hTakes, List.append_nil] at hMem
    exact h.expressions hook hTakes statement hMem
  · intro hook hHook
    rw [get_addTable]
    split
    · rename_i hSetup
      subst hSetup
      rw [Statement.flattenAll_append, h.unwrapped .setup rfl]
      simp [Statement.flattenAll, Statement.flatten]
    · rw [Statement.flattenAll_append, h.unwrapped hook hHook, Operation.flattenAll_dispatchAt]
  · rw [tables_addTable, List.length_append, ← h.tableCount]
    rfl
  · rw [tableSlots, tables_addTable, List.map_append, List.map_append, foldr_max_append,
      ← tableSlots, ← h.slotCount]
    simp [Rule.addTable]

theorem finalize {rule : Rule} (h : InStep rule) : InStep rule.finalize := by
  have hCounts : rule.finalize.tableCount = rule.tableCount ∧
      rule.finalize.slotCount = rule.slotCount := by
    unfold Rule.finalize
    split <;> exact ⟨rfl, rfl⟩
  refine ⟨?_, ?_, ?_, ?_, ?_, ?_⟩
  · rw [tables_finalize, get_finalize_of_not_isFirstMatch rule rfl, h.setup]
  · intro hook hHook hTakes
    rw [flattenAll_get_finalize, tables_finalize, h.dispatch hook hHook hTakes]
  · intro hook hTakes statement hMem
    rw [get_finalize_of_not_isFirstMatch rule (Hook.isFirstMatch_of_takesExpressions hTakes)]
      at hMem
    exact h.expressions hook hTakes statement hMem
  · intro hook hFirst
    rw [get_finalize_of_not_isFirstMatch rule hFirst, h.unwrapped hook hFirst]
  · rw [hCounts.1, tables_finalize, h.tableCount]
  · rw [hCounts.2, tableSlots, tables_finalize, ← tableSlots, h.slotCount]

theorem merge {first second : Rule} (h₁ : InStep first) (h₂ : InStep second) :
    InStep (first.merge second) := by
  have hGet : ∀ hook, (first.merge second).fragments.get hook =
      first.fragments.get hook ++ second.fragments.get hook :=
    fun hook => Fragments.get_append _ _ hook
  refine ⟨?_, ?_, ?_, ?_, ?_, ?_⟩
  · rw [hGet, tables_merge, List.map_append, h₁.setup, h₂.setup]
  · intro hook hHook hTakes
    rw [hGet, tables_merge, Statement.flattenAll_append, List.flatMap_append,
      h₁.dispatch hook hHook hTakes, h₂.dispatch hook hHook hTakes]
  · intro hook hTakes statement hMem
    rw [hGet] at hMem
    rcases List.mem_append.mp hMem with hMem | hMem
    · exact h₁.expressions hook hTakes statement hMem
    · exact h₂.expressions hook hTakes statement hMem
  · intro hook hFirst
    rw [hGet, Statement.flattenAll_append, h₁.unwrapped hook hFirst, h₂.unwrapped hook hFirst]
  · rw [tables_merge, List.length_append, ← h₁.tableCount, ← h₂.tableCount]
    rfl
  · rw [tableSlots, tables_merge, List.map_append, List.map_append, foldr_max_append,
      ← tableSlots, ← tableSlots, ← h₁.slotCount, ← h₂.slotCount]
    rfl

theorem compileLine {rule : Rule} (h : InStep rule) (resolver : Resolver) (line : String)
    (numbering : Numbering) : InStep (rule.compileLine resolver line numbering).rule := by
  have hCase := compileLine_case resolver line numbering rule
  generalize rule.compileLine resolver line numbering = step at hCase ⊢
  cases hCase with
  | clause hOffer => exact h.setGuard _
  | plain hOffer hRead => exact h
  | unknown hOffer hRead hName => exact h
  | expression hOffer hRead hName hStatement =>
    obtain ⟨hHook, hExpression⟩ := Operation.expression?_spec hStatement
    exact h.push hHook hExpression
  | refused hOffer hRead hName hTable hOperands hCause => exact h
  | table hOffer hRead hName hTable hOperands hGroups => exact h.addTable _ hTable

/-- A statement without its blocks names a slot only if a table of the rule is in that slot. -/
theorem mem_tableSlots {rule : Rule} (h : InStep rule) {hook : Hook} {slot : Nat}
    (hSlot : slot ∈ (Statement.flattenAll (rule.fragments.get hook)).filterMap Statement.slot?) :
    slot ∈ rule.tableSlots := by
  obtain ⟨statement, hMem, hStatement⟩ := List.mem_filterMap.mp hSlot
  by_cases hSetup : hook = .setup
  · subst hSetup
    rw [h.unwrapped .setup rfl, h.setup] at hMem
    obtain ⟨⟨slot', table⟩, hTable, rfl⟩ := List.mem_map.mp hMem
    cases hStatement
    exact List.mem_map.mpr ⟨_, hTable, rfl⟩
  · cases hTakes : hook.takesExpressions with
    | true =>
      rw [h.unwrapped hook (Hook.isFirstMatch_of_takesExpressions hTakes)] at hMem
      rw [Statement.slot?_of_isExpression (h.expressions hook hTakes statement hMem)] at hStatement
      cases hStatement
    | false =>
      rw [h.dispatch hook hSetup hTakes] at hMem
      obtain ⟨⟨slot', table⟩, hTable, hUse⟩ := List.mem_flatMap.mp hMem
      rw [(Operation.dispatchAt_leaf hUse).2.1] at hStatement
      cases hStatement
      exact List.mem_map.mpr ⟨_, hTable, rfl⟩

/-- Tables are set up in the setup hook and nowhere else. -/
theorem table?_eq_none {rule : Rule} (h : InStep rule) {hook : Hook} (hSetup : hook ≠ .setup)
    {statement : Statement} (hMem : statement ∈ Statement.flattenAll (rule.fragments.get hook)) :
    statement.table? = none := by
  cases hTakes : hook.takesExpressions with
  | true =>
    rw [h.unwrapped hook (Hook.isFirstMatch_of_takesExpressions hTakes)] at hMem
    exact Statement.table?_of_isExpression (h.expressions hook hTakes statement hMem)
  | false =>
    rw [h.dispatch hook hSetup hTakes] at hMem
    obtain ⟨_, _, hUse⟩ := List.mem_flatMap.mp hMem
    exact (Operation.dispatchAt_leaf hUse).2.2

/-- A table is tried only in the hooks that stop at the first match. -/
theorem isFirstMatch_of_remap_mem {rule : Rule} (h : InStep rule) {hook : Hook} {slot : Nat}
    (hMem : .remap slot ∈ rule.fragments.get hook) : hook.isFirstMatch = true := by
  by_cases hSetup : hook = .setup
  · subst hSetup
    rw [h.setup] at hMem
    obtain ⟨_, _, hStatement⟩ := List.mem_map.mp hMem
    cases hStatement
  · cases hTakes : hook.takesExpressions with
    | true => cases h.expressions hook hTakes _ hMem
    | false =>
      cases hFirst : hook.isFirstMatch with
      | true => rfl
      | false =>
        rw [← h.unwrapped hook hFirst, h.dispatch hook hSetup hTakes] at hMem
        obtain ⟨_, _, hUse⟩ := List.mem_flatMap.mp hMem
        rw [← hFirst, Operation.isFirstMatch_of_remap_mem_dispatchAt hTakes hUse]

/-- Every slot that occurs in a rule, inside blocks or not, is below its slot count. -/
theorem lt_slotCount {rule : Rule} (h : InStep rule) {hook : Hook} {slot : Nat}
    (hSlot : slot ∈ (Statement.flattenAll (rule.fragments.get hook)).filterMap Statement.slot?) :
    slot < rule.slotCount := by
  rw [h.slotCount]
  exact lt_foldr_max_succ (h.mem_tableSlots hSlot)

end InStep

/-! ## Reachable rules -/

/-- The rules that arise from rules without lines by reading lines, which may fail, with any symbols
and any numbering, by closing, and by merging rules that arose in the same way. -/
inductive Reachable : Rule → Prop
  | new (name : String) (guard : Guard) : Reachable (new name guard)
  | line (resolver : Resolver) (line : String) (numbering : Numbering) {rule : Rule}
      (h : Reachable rule) : Reachable (rule.compileLine resolver line numbering).rule
  | finalize {rule : Rule} (h : Reachable rule) : Reachable rule.finalize
  | merge {first second : Rule} (h₁ : Reachable first) (h₂ : Reachable second) :
      Reachable (first.merge second)

theorem Reachable.inStep {rule : Rule} (h : Reachable rule) : InStep rule := by
  induction h with
  | new name guard => exact .new name guard
  | line resolver line numbering h ih => exact ih.compileLine resolver line numbering
  | finalize h ih => exact ih.finalize
  | merge h₁ h₂ ih₁ ih₂ => exact ih₁.merge ih₂

theorem Reachable.lineAlone (resolver : Resolver) (name : String) (style : GuardStyle)
    (line : String) (numbering : Numbering) :
    Reachable (lineAlone resolver name style line numbering).rule :=
  .line resolver line numbering (.new name style.fresh)

theorem isBlock_lineAlone {resolver : Resolver} {name : String} {style : GuardStyle}
    {line : String} {numbering : Numbering} {hook : Hook} {statement : Statement}
    (h : statement ∈
      (Rule.lineAlone resolver name style line numbering).rule.fragments.get hook) :
    statement.isBlock = false := by
  have hCase := compileLine_case resolver line numbering (Rule.new name style.fresh)
  have hEmpty : ∀ hook, (Rule.new name style.fresh).fragments.get hook = [] := Fragments.get_empty
  rw [Rule.lineAlone] at h
  generalize (Rule.new name style.fresh).compileLine resolver line numbering = step at hCase h
  cases hCase with
  | expression _ _ _ hStatement =>
    rw [Fragments.get_push, hEmpty] at h
    split at h
    · rw [List.mem_singleton.mp h]
      exact Statement.isBlock_of_isExpression (Operation.expression?_spec hStatement).2
    · cases h
  | table =>
    rw [get_addTable, hEmpty, hEmpty] at h
    split at h
    · rw [List.mem_singleton.mp h]
      rfl
    · exact (Operation.dispatchAt_leaf h).1
  | _ =>
    rw [hEmpty] at h
    cases h

/-- The statements that some tables bring, each at most one, are those of the tables concerned. -/
theorem flatMap_tables_eq (tables : List (Nat × OperandTable)) (concerned : Operation → Prop)
    [DecidablePred concerned] (use : Nat → Statement) :
    (tables.flatMap fun (slot, table) => if concerned table.operation then [use slot] else []) =
      (tables.filter fun (_, table) => concerned table.operation).map fun (slot, _) =>
        use slot := by
  induction tables with
  | nil => rfl
  | cons first tables ih =>
    by_cases h : concerned first.2.operation <;> simp [h, ih]

/-- In a reachable rule the setup hook holds nothing but tables, each hook that uses tables holds
one statement for each table concerned and nothing else, in the order of the tables, and the counts
are those of the tables. -/
theorem Reachable.dispatch_of_tables {rule : Rule} (h : Reachable rule) :
    (rule.fragments.get .setup = rule.tables.map fun (slot, table) => .setUpTable slot table) ∧
    (∀ hook ∈ [Hook.key, .consumer, .pointing],
      Statement.flattenAll (rule.fragments.get hook) =
        (rule.tables.filter fun (_, table) => table.operation.hook = hook).map fun (slot, _) =>
          .remap slot) ∧
    (Statement.flattenAll (rule.fragments.get .simultaneous) =
      (rule.tables.filter fun (_, table) => table.operation = .simultaneousKeyPresses).map
        fun (slot, _) => .remapSimultaneous slot) ∧
    (rule.fragments.get .dropKey =
      (rule.tables.filter fun (_, table) => table.operation = .dropKeyAfterRemap).map
        fun (slot, _) => .dropKey slot) ∧
    rule.fragments.get .teardown = [] ∧
    rule.tableCount = rule.tables.length ∧
    rule.slotCount = (rule.tables.map fun (slot, _) => slot + 1).foldr max 0 := by
  have hStep := h.inStep
  refine ⟨hStep.setup, ?_, ?_, ?_, ?_, hStep.tableCount, ?_⟩
  · intro hook hHook
    have hOther : hook ≠ .setup ∧ hook.takesExpressions = false := by
      simp only [List.mem_cons, List.not_mem_nil, or_false] at hHook
      rcases hHook with rfl | rfl | rfl <;> exact ⟨by decide, rfl⟩
    rw [hStep.dispatch hook hOther.1 hOther.2]
    simp only [Operation.dispatchAt_remap _ _ hHook]
    exact flatMap_tables_eq rule.tables (·.hook = hook) .remap
  · rw [hStep.dispatch .simultaneous (by decide) rfl]
    simp only [Operation.dispatchAt_simultaneous]
    exact flatMap_tables_eq rule.tables (· = .simultaneousKeyPresses) .remapSimultaneous
  · rw [← hStep.unwrapped .dropKey rfl, hStep.dispatch .dropKey (by decide) rfl]
    simp only [Operation.dispatchAt_dropKey]
    exact flatMap_tables_eq rule.tables (· = .dropKeyAfterRemap) .dropKey
  · rw [← hStep.unwrapped .teardown rfl, hStep.dispatch .teardown (by decide) rfl]
    simp only [Operation.dispatchAt_teardown]
    simp
  · rw [hStep.slotCount, tableSlots, List.map_map]
    rfl

/-- A rule that was closed after an open part had been merged into a closed one: its blocks are
nested, and its statements still follow from its tables. -/
theorem Reachable.dispatch_of_nested_tables :
    ∃ rule, Reachable rule ∧
      rule.fragments.get .key = [.firstMatch "" [.firstMatch "" [.remap 0], .remap 1]] ∧
      Statement.flattenAll (rule.fragments.get .key) = [.remap 0, .remap 1] ∧
      Statement.flattenAll (rule.fragments.get .simultaneous) = [.remapSimultaneous 1] := by
  have h : Reachable _ :=
    .finalize (.merge
      (.finalize (.line (.constant 7) "<autogen>--KeyToKey-- KeyCode::A</autogen>" {}
        (.new "r" .none)))
      (.line (.constant 7) "<autogen>--SimultaneousKeyPresses-- KeyCode::B</autogen>"
        { slots := 1 } (.new "r" .none)))
  refine ⟨_, h, ?_⟩
  rw [(dispatch_of_tables h).2.1 .key (by decide), (dispatch_of_tables h).2.2.1]
  decide +kernel

end Rule

end KeyRemap
