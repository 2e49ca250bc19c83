import KeyRemap.Proofs.Columns
import KeyRemap.Proofs.SetupText

/-!
# Braces of class texts

A class text is put together from many pieces that open or close braces: the frame of the class and
of its functions, the arrays of tables and filters, and blocks that stand in blocks if a rule is
closed late. As long as what comes from outside has no braces of its own, every brace is closed
again, and none is closed that is not open. What comes from outside is the name of the rule, its
expressions, and the values of its filters. The guard code of a block does not tell which lines it
came from, so the clauses that a rule was given are kept beside it.

* `Braces.Leads`: from how many open braces to how many a text leads.
* `Statement.balanced_text`: statements close what they open, nested blocks included.
* `Rule.ReachableWith`: the rules that can arise, with the clauses they were given.
* `Rule.ReachableWith.braces_of_render`: the braces of a class text.
-/

namespace KeyRemap

/-! ## Depth -/

namespace Braces

/-- How many more braces a text opens than it closes. -/
def depth (cs : List Char) : Int :=
  cs.count '\x7b' - cs.count '\x7d'

theorem depth_append (first second : List Char) :
    depth (first ++ second) = depth first + depth second := by
  simp only [depth, List.count_append]
  omega

/-- What a character does to the depth. -/
def change (c : Char) : Int :=
  if c = '\x7b' then 1 else if c = '\x7d' then -1 else 0

theorem depth_cons (c : Char) (cs : List Char) : depth (c :: cs) = change c + depth cs := by
  unfold depth change
  by_cases hOpen : c = '\x7b'
  · subst hOpen
    rw [List.count_cons_self, List.count_cons_of_ne (by decide), if_pos rfl]
    omega
  · by_cases hClose : c = '\x7d'
    · subst hClose
      rw [List.count_cons_of_ne (by decide), List.count_cons_self, if_neg hOpen, if_pos rfl]
      omega
    · rw [List.count_cons_of_ne hOpen, List.count_cons_of_ne hClose, if_neg hOpen, if_neg hClose]
      omega

/-- A text without braces. -/
def Plain (text : String) : Prop :=
  '\x7b' ∉ text.toList ∧ '\x7d' ∉ text.toList

/-- Whether a literal has braces is seen from its characters. -/
theorem Plain.ofList {cs : List Char}
    (h : cs.all (fun c => c != '\x7b' && c != '\x7d') = true) : Plain (String.ofList cs) := by
  unfold Plain
  rw [String.toList_ofList]
  refine ⟨?_, ?_⟩ <;> intro hMem <;> simpa using List.all_eq_true.mp h _ hMem

theorem Plain.append {first second : String} (hFirst : Plain first) (hSecond : Plain second) :
    Plain (first ++ second) := by
  unfold Plain
  rw [String.toList_append]
  exact ⟨List.not_mem_append hFirst.1 hSecond.1, List.not_mem_append hFirst.2 hSecond.2⟩

theorem Plain.depth_eq_zero {text : String} (h : Plain text) {pre : List Char}
    (hPre : pre <+: text.toList) : depth pre = 0 := by
  have hOpen : pre.count '\x7b' = 0 := List.count_eq_zero.mpr fun hMem => h.1 (hPre.subset hMem)
  have hClose : pre.count '\x7d' = 0 := List.count_eq_zero.mpr fun hMem => h.2 (hPre.subset hMem)
  rw [depth, hOpen, hClose]
  rfl

theorem plain_of_isUnmarked {text : String} (h : isUnmarked text = true) : Plain text := by
  refine ⟨?_, ?_⟩ <;> intro hMem <;> cases isArrayMark_of_mem h hMem

theorem plain_repr (n : Nat) : Plain n.repr :=
  plain_of_isUnmarked (isUnmarked_repr n)

theorem plain_intercalate {texts : List String} (h : ∀ text ∈ texts, Plain text) :
    Plain (String.intercalate "," texts) := by
  have hComma : ",".toList = [','] := rfl
  have hFields : ∀ c ∈ (String.intercalate "," texts).toList,
      c = ',' ∨ ∃ text ∈ texts, c ∈ text.toList := by
    intro c hc
    rw [Text.toList_intercalate hComma] at hc
    rcases Text.mem_of_mem_intercalate hc with hc | ⟨field, hField, hc⟩
    · exact .inl hc
    · obtain ⟨text, hText, rfl⟩ := List.mem_map.mp hField
      exact .inr ⟨text, hText, hc⟩
  refine ⟨?_, ?_⟩ <;> intro hMem <;> rcases hFields _ hMem with hEq | ⟨text, hText, hMem⟩
  · cases hEq
  · exact (h text hText).1 hMem
  · cases hEq
  · exact (h text hText).2 hMem

/-- A text that stands where some braces are open leaves others open behind it, and on its way
closes none that is not open. -/
structure Leads (before : Nat) (text : String) (after : Nat) : Prop where
  nonneg : ∀ pre, pre <+: text.toList → 0 ≤ before + depth pre
  ends : before + depth text.toList = after

/-- The number of open braces behind a text, from that before it. There is none if the text closes
a brace that is not open. -/
def scan : Nat → List Char → Option Nat
  | opened, [] => some opened
  | opened, c :: cs =>
    if c = '\x7b' then scan (opened + 1) cs
    else if c = '\x7d' then
      match opened with
      | 0 => none
      | opened + 1 => scan opened cs
    else scan opened cs

theorem Leads.nil (opened : Nat) : Leads opened (String.ofList []) opened := by
  have hEmpty : depth [] = 0 := rfl
  refine ⟨?_, ?_⟩
  · intro pre hPre
    rw [String.toList_ofList] at hPre
    rw [List.prefix_nil.mp hPre, hEmpty]
    omega
  · rw [String.toList_ofList, hEmpty]
    omega

theorem Leads.cons {before next after : Nat} {c : Char} {cs : List Char}
    (h : Leads next (String.ofList cs) after) (hNext : (next : Int) = before + change c) :
    Leads before (String.ofList (c :: cs)) after := by
  obtain ⟨hNonneg, hEnds⟩ := h
  rw [String.toList_ofList] at hNonneg hEnds
  refine ⟨?_, ?_⟩
  · intro pre hPre
    rw [String.toList_ofList] at hPre
    rcases List.prefix_cons_iff.mp hPre with rfl | ⟨rest, rfl, hRest⟩
    · have hEmpty : depth [] = 0 := rfl
      omega
    · have := hNonneg rest hRest
      rw [depth_cons]
      omega
  · rw [String.toList_ofList, depth_cons]
    omega

/-- Where a literal leads is found by a scan of its characters. -/
theorem Leads.ofList {before after : Nat} {cs : List Char} (h : scan before cs = some after) :
    Leads before (String.ofList cs) after := by
  fun_induction scan before cs with
  | case1 =>
    cases h
    exact .nil _
  | case2 opened cs ih => exact (ih h).cons rfl
  | case3 cs _ => cases h
  | case4 cs opened _ ih =>
    have hChange : change '\x7d' = -1 := rfl
    exact (ih h).cons (by omega)
  | case5 opened c cs hOpen hClose ih => exact (ih h).cons (by simp [change, hOpen, hClose])

/-- A text that closes what it opens, and nothing else. -/
def Balanced (text : String) : Prop :=
  Leads 0 text 0

theorem Leads.append {before middle after : Nat} {first second : String}
    (hFirst : Leads before first middle) (hSecond : Leads middle second after) :
    Leads before (first ++ second) after := by
  have hMiddle := hFirst.ends
  refine ⟨?_, ?_⟩
  · intro pre hPre
    rw [String.toList_append] at hPre
    -- a prefix ends within the first text or goes beyond it
    rcases List.prefix_or_prefix_of_prefix hPre (List.prefix_append _ _) with hWithin | ⟨rest, rfl⟩
    · exact hFirst.nonneg pre hWithin
    · have hRest := hSecond.nonneg rest ((List.prefix_append_right_inj _).mp hPre)
      rw [depth_append]
      omega
  · have hAfter := hSecond.ends
    rw [String.toList_append, depth_append]
    omega

theorem Plain.leads {text : String} (h : Plain text) (before : Nat) :
    Leads before text before := by
  refine ⟨?_, ?_⟩
  · intro pre hPre
    rw [h.depth_eq_zero hPre]
    omega
  · rw [h.depth_eq_zero List.prefix_rfl]
    omega

theorem Plain.balanced {text : String} (h : Plain text) : Balanced text :=
  h.leads 0

/-- A text that closes what it opens does so at any depth. -/
theorem Balanced.leads {text : String} (h : Balanced text) (before : Nat) :
    Leads before text before := by
  refine ⟨?_, ?_⟩
  · intro pre hPre
    have := h.nonneg pre hPre
    omega
  · have := h.ends
    omega

theorem balanced_empty : Balanced "" :=
  Leads.ofList rfl

theorem Balanced.append {first second : String} (hFirst : Balanced first)
    (hSecond : Balanced second) : Balanced (first ++ second) :=
  Leads.append hFirst hSecond

theorem balanced_join {texts : List String} (h : ∀ text ∈ texts, Balanced text) :
    Balanced (String.join texts) := by
  induction texts with
  | nil => exact balanced_empty
  | cons text texts ih =>
    rw [String.join_cons]
    exact (h text List.mem_cons_self).append
      (ih fun other hOther => h other (List.mem_cons_of_mem _ hOther))

end Braces

open Braces

/-! ## Filters -/

theorem FilterClause.plain_scopedValue (kind : FilterKind) {value : String} (h : Plain value) :
    Plain (scopedValue kind value) := by
  have hScope : Plain kind.scope := by
    cases kind <;> exact .ofList (by decide)
  have hColons : Plain "::" := .ofList (by decide)
  unfold scopedValue
  split
  · exact h
  · exact (hScope.append hColons).append h

theorem FilterClause.plain_of_mem_elements {clause : FilterClause}
    (h : ∀ value ∈ clause.values, Plain value) {element : String}
    (hElement : element ∈ clause.elements) : Plain element := by
  rcases List.mem_cons.mp hElement with rfl | hElement
  · have hMarker : isUnmarked clause.kind.marker = true := by
      cases clause.kind <;> exact isUnmarked_ofList (by decide)
    exact plain_of_isUnmarked (isUnmarked_constantElement hMarker)
  · obtain ⟨value, hValue, rfl⟩ := List.mem_map.mp hElement
    exact plain_scopedValue clause.kind (h value hValue)

theorem FilterClause.balanced_code {clause : FilterClause}
    (h : ∀ value ∈ clause.values, Plain value) : Balanced clause.code := by
  have hOpening : Leads 0 "\x7b\n  const unsigned int filter[] = \x7b " 2 := .ofList (by decide)
  have hElements : Leads 2 (String.intercalate "," clause.elements) 2 :=
    (plain_intercalate fun _ hElement => plain_of_mem_elements h hElement).leads 2
  have hMiddle : Leads 2 " \x7d;\n" 1 := .ofList (by decide)
  have hCheck : Leads 1
      "  if (RemapFilter::isblocked(filter, sizeof(filter) / sizeof(filter[0]))) break;\n\x7d\n"
      0 := .ofList (by decide)
  exact ((hOpening.append hElements).append hMiddle).append hCheck

theorem Guard.balanced_code {guard : Guard}
    (h : ∀ clause ∈ guard.clauses, ∀ value ∈ clause.values, Plain value) :
    Balanced guard.code := by
  apply balanced_join
  intro text hText
  obtain ⟨clause, hClause, rfl⟩ := List.mem_map.mp hText
  exact FilterClause.balanced_code (h clause hClause)

/-! ## Statements -/

namespace Statement

/-- The expression that a statement holds. -/
def expression? : Statement → Option String
  | assignKeyboardType expr | returnStatusMessage expr => some expr
  | _ => none

mutual

/-- The guard codes of a statement's blocks. -/
def guards : Statement → List String
  | firstMatch guard body => guard :: guardsAll body
  | _ => []

/-- The guard codes of the blocks of some statements. -/
def guardsAll : List Statement → List String
  | [] => []
  | statement :: statements => guards statement ++ guardsAll statements

end

theorem guardsAll_append (first second : List Statement) :
    guardsAll (first ++ second) = guardsAll first ++ guardsAll second := by
  induction first with
  | nil => simp only [List.nil_append, guardsAll]
  | cons statement first ih => simp only [List.cons_append, guardsAll, ih, List.append_assoc]

theorem guardsAll_block (guard : String) (body : List Statement) :
    guardsAll [firstMatch guard body] = guard :: guardsAll body := by
  simp only [guardsAll, guards, List.append_nil]

theorem guardsAll_of_not_isBlock {statements : List Statement}
    (h : ∀ statement ∈ statements, statement.isBlock = false) : guardsAll statements = [] := by
  induction statements with
  | nil => simp only [guardsAll]
  | cons statement statements ih =>
    have hHead : guards statement = [] := by
      cases statement with
      | firstMatch guard body => cases h _ List.mem_cons_self
      | _ => simp only [guards]
    have hTail := ih fun other hOther => h other (List.mem_cons_of_mem _ hOther)
    simp only [guardsAll, hHead, hTail, List.append_nil]

theorem plain_slotText (slot : Nat) : Plain (slotText slot) := by
  have hOpening : Plain "value_[" := .ofList (by decide)
  have hClosing : Plain "]" := .ofList (by decide)
  exact (hOpening.append (plain_repr slot)).append hClosing

theorem balanced_setUpTable (slot : Nat) (table : OperandTable) :
    Balanced (text (.setUpTable slot table)) := by
  have hOpening : Leads 0 "\x7b\n  const unsigned int vec[] = \x7b " 2 := .ofList (by decide)
  have hElements : Leads 2 (String.intercalate "," table.elements) 2 :=
    (plain_intercalate fun _ hElement =>
      plain_of_isUnmarked (OperandTable.isUnmarked_of_mem_elements hElement)).leads 2
  have hMiddle : Leads 2 " \x7d;\n  " 1 := .ofList (by decide)
  have hEnding : Leads 1 ".initialize_remap(vec, sizeof(vec) / sizeof(vec[0]));\n\x7d\n" 0 :=
    .ofList (by decide)
  rw [text_setUpTable]
  exact (((hOpening.append hElements).append hMiddle).append ((plain_slotText slot).leads 1)).append
    hEnding

mutual

/-- A statement closes what it opens if its expressions have no braces and the guard codes of its
blocks close what they open. -/
theorem balanced_text : ∀ (statement : Statement),
    (∀ expr ∈ (flatten statement).filterMap expression?, Plain expr) →
    (∀ guard ∈ guards statement, Balanced guard) → Balanced (text statement)
  | setUpTable slot table, _, _ => balanced_setUpTable slot table
  | assignKeyboardType expr, hExpr, _ => by
    have hPlain : Plain expr := hExpr expr (by simp [flatten, expression?])
    have hBefore : Plain "keyboardType = " := .ofList (by decide)
    have hAfter : Plain ".get();\n" := .ofList (by decide)
    rw [text_assignKeyboardType]
    exact ((hBefore.append hPlain).append hAfter).balanced
  | remap slot, _, _ => by
    have hBefore : Plain "if (" := .ofList (by decide)
    have hAfter : Plain ".remap(remapParams)) break;\n" := .ofList (by decide)
    rw [text_remap]
    exact ((hBefore.append (plain_slotText slot)).append hAfter).balanced
  | remapSimultaneous slot, _, _ => by
    have hAfter : Plain ".remap_SimultaneousKeyPresses();\n" := .ofList (by decide)
    rw [text_remapSimultaneous]
    exact ((plain_slotText slot).append hAfter).balanced
  | dropKey slot, _, _ => by
    have hBefore : Plain "if (" := .ofList (by decide)
    have hAfter : Plain ".drop(params)) return true;\n" := .ofList (by decide)
    rw [text_dropKey]
    exact ((hBefore.append (plain_slotText slot)).append hAfter).balanced
  | returnStatusMessage expr, hExpr, _ => by
    have hPlain : Plain expr := hExpr expr (by simp [flatten, expression?])
    have hBefore : Plain "return " := .ofList (by decide)
    have hAfter : Plain ";\n" := .ofList (by decide)
    rw [text_returnStatusMessage]
    exact ((hBefore.append hPlain).append hAfter).balanced
  | firstMatch guard body, hExpr, hGuards => by
    simp only [flatten] at hExpr
    simp only [guards, List.mem_cons, forall_eq_or_imp] at hGuards
    have hBody := balanced_textAll body hExpr hGuards.2
    have hOpening : Leads 0 "do \x7b\n" 1 := .ofList (by decide)
    have hClosing : Leads 1 "\x7d while (false);\n" 0 := .ofList (by decide)
    rw [text_firstMatch]
    exact ((hOpening.append (hGuards.1.leads 1)).append (hBody.leads 1)).append hClosing

theorem balanced_textAll : ∀ (statements : List Statement),
    (∀ expr ∈ (flattenAll statements).filterMap expression?, Plain expr) →
    (∀ guard ∈ guardsAll statements, Balanced guard) → Balanced (textAll statements)
  | [], _, _ => balanced_empty
  | statement :: statements, hExpr, hGuards => by
    simp only [flattenAll, List.filterMap_append, List.forall_mem_append] at hExpr
    simp only [guardsAll, List.forall_mem_append] at hGuards
    rw [textAll_cons]
    exact (balanced_text statement hExpr.1 hGuards.1).append
      (balanced_textAll statements hExpr.2 hGuards.2)

end

end Statement

namespace Rule

/-! ## Where the guard codes come from -/

/-- The rules that arise as `Reachable` says, with the clauses that they, and the rules merged into
them, began with and were given by lines. -/
inductive ReachableWith : Rule → List FilterClause → Prop
  | new (name : String) (guard : Guard) : ReachableWith (new name guard) guard.clauses
  | line (resolver : Resolver) (line : String) (numbering : Numbering) {rule : Rule}
      {clauses : List FilterClause} (h : ReachableWith rule clauses) :
      ReachableWith (rule.compileLine resolver line numbering).rule
        (clauses ++ (rule.guard.style.clause? line).toList)
  | finalize {rule : Rule} {clauses : List FilterClause} (h : ReachableWith rule clauses) :
      ReachableWith rule.finalize clauses
  | merge {first second : Rule} {clauses clauses' : List FilterClause}
      (h₁ : ReachableWith first clauses) (h₂ : ReachableWith second clauses') :
      ReachableWith (first.merge second) (clauses ++ clauses')

/-- Keeping the clauses loses no rule. -/
theorem reachable_iff_exists_reachableWith {rule : Rule} :
    Reachable rule ↔ ∃ clauses, ReachableWith rule clauses := by
  constructor
  · intro h
    induction h with
    | new name guard => exact ⟨_, .new name guard⟩
    | line resolver line numbering h ih =>
      obtain ⟨clauses, ih⟩ := ih
      exact ⟨_, .line resolver line numbering ih⟩
    | finalize h ih =>
      obtain ⟨clauses, ih⟩ := ih
      exact ⟨_, .finalize ih⟩
    | merge h₁ h₂ ih₁ ih₂ =>
      obtain ⟨clauses, ih₁⟩ := ih₁
      obtain ⟨clauses', ih₂⟩ := ih₂
      exact ⟨_, .merge ih₁ ih₂⟩
  · rintro ⟨clauses, h⟩
    induction h with
    | new name guard => exact .new name guard
    | line resolver line numbering h ih => exact .line resolver line numbering ih
    | finalize h ih => exact .finalize ih
    | merge h₁ h₂ ih₁ ih₂ => exact .merge ih₁ ih₂

/-- The guard of a rule, and the guards of its blocks, have no other clauses than these. -/
structure GuardedBy (rule : Rule) (clauses : List FilterClause) : Prop where
  own : rule.guard.clauses ⊆ clauses
  blocks : ∀ hook, ∀ code ∈ Statement.guardsAll (rule.fragments.get hook),
    ∃ guard : Guard, guard.clauses ⊆ clauses ∧ code = guard.code

namespace GuardedBy

theorem new (name : String) (guard : Guard) : GuardedBy (new name guard) guard.clauses where
  own _ h := h
  blocks hook code h := by
    simp [Rule.new, Statement.guardsAll] at h

/-- A line brings no block. -/
theorem compileLine {rule : Rule} {clauses : List FilterClause} (h : GuardedBy rule clauses)
    (resolver : Resolver) (line : String) (numbering : Numbering) :
    GuardedBy (rule.compileLine resolver line numbering).rule
      (clauses ++ (rule.guard.style.clause? line).toList) := by
  refine ⟨?_, ?_⟩
  · rw [guard_compileLine, Guard.clauses_extend_clause?]
    exact List.append_subset.mpr ⟨List.subset_append_of_subset_left _ h.own,
      List.subset_append_right _ _⟩
  · intro hook code hCode
    rw [compileLine_eq_absorb, absorbStep, absorb, Fragments.get_append,
      Statement.guardsAll_append, Statement.guardsAll_of_not_isBlock fun _ => isBlock_lineAlone,
      List.append_nil] at hCode
    obtain ⟨guard, hGuard, hEq⟩ := h.blocks hook code hCode
    exact ⟨guard, List.subset_append_of_subset_left _ hGuard, hEq⟩

/-- A block that closing brings has the guard of the rule. -/
theorem finalize {rule : Rule} {clauses : List FilterClause} (h : GuardedBy rule clauses) :
    GuardedBy rule.finalize clauses := by
  unfold Rule.finalize
  split
  · exact h
  · refine ⟨h.own, ?_⟩
    intro hook code hCode
    rw [Fragments.get_wrapFirstMatch] at hCode
    split at hCode
    · rw [Statement.guardsAll_block] at hCode
      rcases List.mem_cons.mp hCode with rfl | hCode
      · exact ⟨rule.guard, h.own, rfl⟩
      · exact h.blocks hook code hCode
    · exact h.blocks hook code hCode

theorem merge {first second : Rule} {clauses clauses' : List FilterClause}
    (h₁ : GuardedBy first clauses) (h₂ : GuardedBy second clauses') :
    GuardedBy (first.merge second) (clauses ++ clauses') := by
  refine ⟨List.subset_append_of_subset_left _ h₁.own, ?_⟩
  intro hook code hCode
  rw [Rule.merge, Fragments.get_append, Statement.guardsAll_append] at hCode
  rcases List.mem_append.mp hCode with hCode | hCode
  · obtain ⟨guard, hGuard, hEq⟩ := h₁.blocks hook code hCode
    exact ⟨guard, List.subset_append_of_subset_left _ hGuard, hEq⟩
  · obtain ⟨guard, hGuard, hEq⟩ := h₂.blocks hook code hCode
    exact ⟨guard, List.subset_append_of_subset_right _ hGuard, hEq⟩

end GuardedBy

theorem ReachableWith.guardedBy {rule : Rule} {clauses : List FilterClause}
    (h : ReachableWith rule clauses) : GuardedBy rule clauses := by
  induction h with
  | new name guard => exact .new name guard
  | line resolver line numbering h ih => exact ih.compileLine resolver line numbering
  | finalize h ih => exact ih.finalize
  | merge h₁ h₂ ih₁ ih₂ => exact ih₁.merge ih₂

/-! ## Class texts -/

/-- The expressions that a rule holds, in whatever hook. -/
def expressions (rule : Rule) : List String :=
  Hook.all.flatMap fun hook =>
    (Statement.flattenAll (rule.fragments.get hook)).filterMap Statement.expression?

theorem balanced_text_get {rule : Rule} {clauses : List FilterClause}
    (hRule : ReachableWith rule clauses) (hExpressions : ∀ expr ∈ rule.expressions, Plain expr)
    (hValues : ∀ clause ∈ clauses, ∀ value ∈ clause.values, Plain value) (hook : Hook) :
    Balanced (rule.fragments.text hook) := by
  apply Statement.balanced_textAll
  · intro expr hExpr
    exact hExpressions expr (List.mem_flatMap.mpr ⟨hook, hook.mem_all, hExpr⟩)
  · intro code hCode
    obtain ⟨guard, hGuard, rfl⟩ := hRule.guardedBy.blocks hook code hCode
    exact Guard.balanced_code fun clause hClause => hValues clause (hGuard hClause)

theorem balanced_hookText {rule : Rule} (h : ∀ hook, Balanced (rule.fragments.text hook))
    (hook : Hook) : Balanced (rule.hookText hook) := by
  have hSignature : Plain hook.signature := by
    cases hook <;> exact .ofList (by decide)
  have hBody : Balanced (rule.hookBody hook) := by
    cases hook with
    | teardown =>
      have hOpening :
          Leads 0 "  for (size_t i = 0; i < sizeof(value_) / sizeof(value_[0]); ++i) \x7b\n" 1 :=
        .ofList (by decide)
      have hClosing : Leads 1 "    value_[i].terminate();\n  \x7d\n" 0 := .ofList (by decide)
      exact hOpening.append hClosing
    | dropKey =>
      have hBefore : Plain "if (! enabled()) return false;\n" := .ofList (by decide)
      have hAfter : Plain "return false;\n" := .ofList (by decide)
      exact (hBefore.balanced.append (h .dropKey)).append hAfter.balanced
    | _ => exact h _
  have hOpening : Leads 0 " \x7b\n" 1 := .ofList (by decide)
  have hClosing : Leads 1 "\x7d\n" 0 := .ofList (by decide)
  exact (((hSignature.leads 0).append hOpening).append (hBody.leads 1)).append hClosing

theorem balanced_enabledText (enabled : Enabled) : Balanced (enabledText enabled) := by
  have hCode : Plain enabled.code := by
    have hFlag : ∀ index : UInt32, Plain ("return config.enabled_flags[" ++ index.toNat.repr) := by
      intro index
      have hBefore : Plain "return config.enabled_flags[" := .ofList (by decide)
      exact hBefore.append (plain_repr _)
    cases enabled with
    | passthroughSwitch => exact .ofList (by decide)
    | flag index =>
      have hAfter : Plain "];\n" := .ofList (by decide)
      exact (hFlag index).append hAfter
    | flagUnlessPassthrough index =>
      have hAfter : Plain "] && ! config.notsave_passthrough;\n" := .ofList (by decide)
      exact (hFlag index).append hAfter
  have hOpening : Leads 0 "static bool enabled(void) \x7b\n" 1 := .ofList (by decide)
  have hClosing : Leads 1 "\x7d\n" 0 := .ofList (by decide)
  exact (hOpening.append (hCode.leads 1)).append hClosing

/-- The text between the braces of the class. -/
def innerText (rule : Rule) (enabled : Enabled) : String :=
  "\npublic:\n" ++ String.join (rule.definedHooks.map rule.hookText) ++ enabledText enabled ++
    ("\nprivate:\nstatic RemapClass::Item value_[" ++ rule.arraySize.repr ++ "];\n")

theorem classText_eq (rule : Rule) (enabled : Enabled) :
    rule.classText enabled =
      "class RemapClass_" ++ rule.name ++ " \x7b" ++ rule.innerText enabled ++
        ("\x7d;\nRemapClass::Item RemapClass_" ++ rule.name ++ "::value_[" ++
          rule.arraySize.repr ++ "];\n\n\n") := by
  have hBrace : " \x7b\npublic:\n" = " \x7b" ++ "\npublic:\n" := by decide +kernel
  have hEnd : "];\n\x7d;\nRemapClass::Item RemapClass_" =
      "];\n" ++ "\x7d;\nRemapClass::Item RemapClass_" := by decide +kernel
  rw [classText, openingText_eq, storageText_eq]
  unfold innerText arraySize
  simp only [hBrace, hEnd, String.append_assoc]

theorem leads_opening {name : String} (h : Plain name) :
    Leads 0 ("class RemapClass_" ++ name ++ " \x7b") 1 := by
  have hClass : Plain "class RemapClass_" := .ofList (by decide)
  have hBrace : Leads 0 " \x7b" 1 := .ofList (by decide)
  exact ((hClass.append h).leads 0).append hBrace

theorem leads_closing {name : String} (h : Plain name) (size : Nat) :
    Leads 1 ("\x7d;\nRemapClass::Item RemapClass_" ++ name ++ "::value_[" ++ size.repr ++
      "];\n\n\n") 0 := by
  have hItem : Leads 1 "\x7d;\nRemapClass::Item RemapClass_" 0 := .ofList (by decide)
  have hArray : Plain "::value_[" := .ofList (by decide)
  have hEnd : Plain "];\n\n\n" := .ofList (by decide)
  exact (((hItem.append (h.leads 0)).append (hArray.leads 0)).append
    ((plain_repr size).leads 0)).append (hEnd.leads 0)

theorem balanced_innerText {rule : Rule} (h : ∀ hook, Balanced (rule.fragments.text hook))
    (enabled : Enabled) : Balanced (rule.innerText enabled) := by
  have hPublic : Plain "\npublic:\n" := .ofList (by decide)
  have hHooks : Balanced (String.join (rule.definedHooks.map rule.hookText)) := by
    apply balanced_join
    intro text hText
    obtain ⟨hook, _, rfl⟩ := List.mem_map.mp hText
    exact balanced_hookText h hook
  have hArray : Plain
      ("\nprivate:\nstatic RemapClass::Item value_[" ++ rule.arraySize.repr ++ "];\n") := by
    have hBefore : Plain "\nprivate:\nstatic RemapClass::Item value_[" := .ofList (by decide)
    have hAfter : Plain "];\n" := .ofList (by decide)
    exact (hBefore.append (plain_repr _)).append hAfter
  exact ((hPublic.balanced.append hHooks).append (balanced_enabledText enabled)).append
    hArray.balanced

/-- **Class texts close their braces.** Take any rule that lines, closing and merging can make, with
no brace in its name, in its expressions and in the values of the clauses that it or a rule merged
into it was given. If it can be written out, no brace of its text closes what is not open, and at
the end none is open. If it has a statement, its text is a class, and from the opening brace of the
class to its closing one at least one brace is open all the time. -/
theorem ReachableWith.braces_of_render {resolver : Resolver} {rule : Rule}
    {clauses : List FilterClause} {item : Rendered} (hRule : ReachableWith rule clauses)
    (hName : Plain rule.name) (hExpressions : ∀ expr ∈ rule.expressions, Plain expr)
    (hValues : ∀ clause ∈ clauses, ∀ value ∈ clause.values, Plain value)
    (hRender : rule.render resolver = .ok item) :
    (∀ pre, pre <+: item.code.toList → 0 ≤ depth pre) ∧ depth item.code.toList = 0 ∧
    (rule.HasStatement → ∃ inner : String,
      item.code =
        "class RemapClass_" ++ rule.name ++ " \x7b" ++ inner ++
          ("\x7d;\nRemapClass::Item RemapClass_" ++ rule.name ++ "::value_[" ++
            rule.arraySize.repr ++ "];\n\n\n") ∧
      ∀ pre, pre <+: inner.toList →
        1 ≤ depth (("class RemapClass_" ++ rule.name ++ " \x7b").toList ++ pre)) := by
  rcases render_case hRender with ⟨hNone, hCode, _⟩ | ⟨_, _, enabled, _, hCode⟩
  · rw [hCode]
    exact ⟨fun pre hPre => by simpa using balanced_empty.nonneg pre hPre,
      by simpa using balanced_empty.ends, fun hRule => absurd hRule hNone⟩
  · have hInner := balanced_innerText (balanced_text_get hRule hExpressions hValues) enabled
    have hOpening := leads_opening hName
    have hClosing := leads_closing hName rule.arraySize
    have hAll : Balanced item.code := by
      rw [hCode, classText_eq]
      exact (hOpening.append (hInner.leads 1)).append hClosing
    refine ⟨?_, ?_, ?_⟩
    · intro pre hPre
      simpa using hAll.nonneg pre hPre
    · simpa using hAll.ends
    · intro _
      refine ⟨rule.innerText enabled, hCode.trans (rule.classText_eq enabled), ?_⟩
      -- what stands between the braces closes what it opens, so it never reaches the outer one
      intro pre hPre
      have hOpen := hOpening.ends
      have hPre := hInner.nonneg pre hPre
      rw [depth_append]
      omega

/-- A filter, an expression and nested blocks: a part of the rule was merged in open and closed
late. -/
theorem ReachableWith.braces_of_render_nested :
    ∃ (rule : Rule) (clause : FilterClause) (item : Rendered) (inner : String),
      ReachableWith rule [clause] ∧ clause.values = ["TERMINAL"] ∧
      rule.expressions = ["KeyboardType::MACBOOK"] ∧
      rule.fragments.get .key =
        [.firstMatch clause.code [.firstMatch clause.code [.remap 0], .remap 1]] ∧
      rule.render (.constant 7) = .ok item ∧ depth item.code.toList = 0 ∧
      item.code = "class RemapClass_r \x7b" ++ inner ++
        "\x7d;\nRemapClass::Item RemapClass_r::value_[2];\n\n\n" ∧
      ∀ pre, pre <+: inner.toList → 1 ≤ depth ("class RemapClass_r \x7b".toList ++ pre) := by
  have hRule : ReachableWith _ _ :=
    .finalize (.merge
      (.finalize
        (.line (.constant 7) "<autogen>--SetKeyboardType-- KeyboardType::MACBOOK</autogen>" {}
          (.line (.constant 7) "<autogen>--KeyToKey-- KeyCode::A</autogen>" {}
            (.line (.constant 7) "<not>TERMINAL</not>" {} (.new "r" (.filter []))))))
      (.line (.constant 7) "<autogen>--KeyToKey-- KeyCode::B</autogen>" { slots := 1 }
        (.new "r" (.filter []))))
  obtain ⟨rule, clause, hRule, hName, hSize, hClause, hExpressions, hKey, hOk⟩ :
      ∃ (rule : Rule) (clause : FilterClause), ReachableWith rule [clause] ∧ rule.name = "r" ∧
        rule.arraySize = 2 ∧ clause.values = ["TERMINAL"] ∧
        rule.expressions = ["KeyboardType::MACBOOK"] ∧
        rule.fragments.get .key =
          [.firstMatch clause.code [.firstMatch clause.code [.remap 0], .remap 1]] ∧
        (rule.render (.constant 7)).toOption.isSome = true :=
    ⟨_, ⟨.applicationNot, ["TERMINAL"]⟩, hRule, by decide +kernel⟩
  cases hRender : rule.render (.constant 7) with
  | error e =>
    rw [hRender] at hOk
    cases hOk
  | ok item =>
    have hPlainName : Plain rule.name := by
      rw [hName]
      exact .ofList (by decide)
    have hPlainExpressions : ∀ expr ∈ rule.expressions, Plain expr := by
      rw [hExpressions, List.forall_mem_singleton]
      exact .ofList (by decide)
    have hPlainValues : ∀ clause' ∈ [clause], ∀ value ∈ clause'.values, Plain value := by
      rw [List.forall_mem_singleton, hClause, List.forall_mem_singleton]
      exact .ofList (by decide)
    have hStatement : rule.HasStatement := ⟨.key, by rw [hKey]; exact List.cons_ne_nil _ _⟩
    obtain ⟨_, hDepth, hClass⟩ :=
      braces_of_render hRule hPlainName hPlainExpressions hPlainValues hRender
    obtain ⟨inner, hCode, hInner⟩ := hClass hStatement
    have hOpening : "class RemapClass_" ++ "r" ++ " \x7b" = "class RemapClass_r \x7b" := by
      decide +kernel
    have hClosing : "\x7d;\nRemapClass::Item RemapClass_" ++ "r" ++ "::value_[" ++ (2 : Nat).repr ++
        "];\n\n\n" = "\x7d;\nRemapClass::Item RemapClass_r::value_[2];\n\n\n" := by
      decide +kernel
    rw [hName, hSize, hOpening, hClosing] at hCode
    rw [hName, hOpening] at hInner
    exact ⟨rule, clause, item, inner, hRule, hClause, hExpressions, hKey, hRender, hDepth, hCode,
      hInner⟩

end Rule

end KeyRemap
