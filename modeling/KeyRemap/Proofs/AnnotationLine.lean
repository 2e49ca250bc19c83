import KeyRemap.Proofs.Cuts
import KeyRemap.Proofs.Line
import KeyRemap.Proofs.Names
import Mathlib.Logic.ExistsUnique

/-!
# Which operation a line asks for

A line can often be taken for an annotation in more than one way: tags and dashes may come again,
also inside of a name or of parameters, and a first tag may be left incomplete. Of all ways to lay
the line out that one counts which has the least before the tag, then the shortest name, then the
longest parameters. Three cuts find it, none of which is ever taken back: where the first opening,
or the first divider behind it, leads to nothing, a later one does not either.

* `Annotation.Layout.IsPreferred`: the layout that counts; there is at most one.
* `Annotation.read?_eq_some_iff`, `Annotation.read?_eq_none_iff`: an annotation is read by the
  layout that counts, and from every line that can be laid out at all.
* `Rule.compileLine_of_layout`: what a rule does with a line, in terms of layouts.
-/

namespace KeyRemap

namespace Annotation

/-! ## Layouts -/

/-- A text seen as an annotation with something before and after it. -/
structure Layout where
  before : String
  name : String
  params : String
  after : String

namespace Layout

def text (layout : Layout) : String :=
  layout.before ++ "<autogen>--" ++ layout.name ++ "-- " ++ layout.params ++ "</autogen>" ++
    layout.after

/-- A line can be laid out like this: neither name nor parameters are empty. -/
structure Fits (layout : Layout) (line : String) : Prop where
  line_eq : line = layout.text
  name_ne : layout.name ≠ ""
  params_ne : layout.params ≠ ""

/-- Of the layouts of a line, the one with the least before the annotation, then with the shortest
name, then with the longest parameters. -/
structure IsPreferred (layout : Layout) (line : String) : Prop extends layout.Fits line where
  before_le : ∀ other : Layout, other.Fits line → layout.before.length ≤ other.before.length
  name_le : ∀ other : Layout, other.Fits line → other.before.length = layout.before.length →
    layout.name.length ≤ other.name.length
  le_params : ∀ other : Layout, other.Fits line → other.before.length = layout.before.length →
    other.name.length = layout.name.length → other.params.length ≤ layout.params.length

/-- The three marks of a layout, one within what follows the other. -/
theorem toList_text (layout : Layout) :
    layout.text.toList = layout.before.toList ++ opening ++ (layout.name.toList ++ divider ++
      (layout.params.toList ++ closingTag ++ layout.after.toList)) := by
  unfold text opening divider closingTag
  simp only [String.toList_append, List.append_assoc]

theorem Fits.toList_line {layout : Layout} {line : String} (h : layout.Fits line) :
    line.toList = layout.before.toList ++ opening ++ (layout.name.toList ++ divider ++
      (layout.params.toList ++ closingTag ++ layout.after.toList)) := by
  rw [h.line_eq, toList_text]

theorem eq_of_length_eq {layout other : Layout} {line : String} (h : layout.Fits line)
    (hOther : other.Fits line) (hBefore : layout.before.length = other.before.length)
    (hName : layout.name.length = other.name.length)
    (hParams : layout.params.length = other.params.length) : layout = other := by
  simp only [← String.length_toList] at hBefore hName hParams
  have hText := h.toList_line.symm.trans hOther.toList_line
  obtain ⟨hBefore, hText⟩ := Text.eq_of_length_eq hText hBefore
  obtain ⟨hName, hText⟩ := Text.eq_of_length_eq hText hName
  obtain ⟨hParams, hAfter⟩ := Text.eq_of_length_eq hText hParams
  rw [String.toList_inj] at hBefore hName hParams hAfter
  cases layout
  cases other
  simp_all

/-- At most one layout of a line counts. -/
theorem IsPreferred.eq {layout other : Layout} {line : String} (h : layout.IsPreferred line)
    (hOther : other.IsPreferred line) : layout = other := by
  have hBefore : layout.before.length = other.before.length :=
    Nat.le_antisymm (h.before_le other hOther.toFits) (hOther.before_le layout h.toFits)
  have hName : layout.name.length = other.name.length :=
    Nat.le_antisymm (h.name_le other hOther.toFits hBefore.symm)
      (hOther.name_le layout h.toFits hBefore)
  have hParams : layout.params.length = other.params.length :=
    Nat.le_antisymm (hOther.le_params layout h.toFits hBefore hName)
      (h.le_params other hOther.toFits hBefore.symm hName.symm)
  exact eq_of_length_eq h.toFits hOther.toFits hBefore hName hParams

end Layout

/-! ## Reading by cuts -/

/-- The three cuts of an annotation that is read. -/
theorem exists_of_onStretch? {cs : List Char} {found : Annotation}
    (h : onStretch? cs = some found) :
    ∃ before rest name tail params after, Text.cutFirst opening cs = some (before, rest) ∧
      Text.cutInner divider rest = some (name, tail) ∧
      Text.cutLast closingTag tail = some (params, after) ∧ params ≠ [] ∧
      found = ⟨String.ofList name, String.ofList params⟩ := by
  unfold onStretch? at h
  split at h
  · cases h
  · rename_i before rest hOpening
    unfold body? at h
    split at h
    · cases h
    · rename_i name tail hDivider
      split at h
      · rename_i c params after hClosing
        cases h
        exact ⟨before, rest, name, tail, c :: params, after, hOpening, hDivider, hClosing,
          List.cons_ne_nil c params, rfl⟩
      · cases h
      · cases h

/-- The layout that is read counts: each cut takes the extreme one of all that the cuts before it
have left. -/
theorem isPreferred_of_onStretch? {line : String} {found : Annotation}
    (h : onStretch? line.toList = some found) :
    ∃ before after, Layout.IsPreferred ⟨before, found.operation, found.params, after⟩ line := by
  obtain ⟨before, rest, name, tail, params, after, hOpening, hDivider, hClosing, hParams, rfl⟩ :=
    exists_of_onStretch? h
  have hLine := Text.eq_append_of_cutFirst hOpening
  obtain ⟨hName, hRest⟩ := Text.eq_append_of_cutInner hDivider
  have hTail := Text.eq_append_of_cutLast hClosing
  refine ⟨String.ofList before, String.ofList after, ⟨?_, ?_, ?_⟩, ?_, ?_, ?_⟩
  · rw [← String.toList_inj, Layout.toList_text]
    simpa [hRest, hTail] using hLine
  · simpa using hName
  · simpa using hParams
  · intro other hOther
    simp only [← String.length_toList, String.toList_ofList]
    exact Text.length_le_of_cutFirst hOpening hOther.toList_line
  · intro other hOther hBefore
    simp only [← String.length_toList, String.toList_ofList] at hBefore ⊢
    have hText := hLine.symm.trans hOther.toList_line
    obtain ⟨_, hText⟩ := Text.eq_of_length_eq hText hBefore.symm
    have hOtherName : other.name.toList ≠ [] := by simpa using hOther.name_ne
    exact Text.length_le_of_cutInner hDivider hOtherName hText
  · intro other hOther hBefore hOtherName
    simp only [← String.length_toList, String.toList_ofList] at hBefore hOtherName ⊢
    have hText := hLine.symm.trans hOther.toList_line
    obtain ⟨_, hText⟩ := Text.eq_of_length_eq hText hBefore.symm
    obtain ⟨_, hText⟩ := Text.eq_of_length_eq (hRest.symm.trans hText) hOtherName.symm
    exact Text.length_le_of_cutLast hClosing hText

/-- From a line with a layout an annotation is read. The first opening stands no later than that of
the layout, and so what follows it ends with the name of the layout and all behind it; and likewise
at the first divider. -/
theorem exists_onStretch?_of_fits {layout : Layout} {line : String} (h : layout.Fits line) :
    ∃ found, onStretch? line.toList = some found := by
  have hText := h.toList_line
  have hName : layout.name.toList ≠ [] := by simpa using h.name_ne
  have hParams : layout.params.toList ≠ [] := by simpa using h.params_ne
  obtain ⟨before, rest, hOpening⟩ := Text.exists_cutFirst layout.before.toList opening
    (layout.name.toList ++ divider ++
      (layout.params.toList ++ closingTag ++ layout.after.toList))
  rw [← hText] at hOpening
  have hLine := Text.eq_append_of_cutFirst hOpening
  obtain ⟨between, hBetween⟩ := Text.exists_between (hLine.symm.trans hText)
    (Text.length_le_of_cutFirst hOpening hText)
  have hRest : rest = (between ++ layout.name.toList) ++ divider ++
      (layout.params.toList ++ closingTag ++ layout.after.toList) := by
    simp only [hBetween, List.append_assoc]
  have hLonger : between ++ layout.name.toList ≠ [] :=
    List.append_ne_nil_of_right_ne_nil between hName
  obtain ⟨name, tail, hDivider⟩ := Text.exists_cutInner hLonger divider
    (layout.params.toList ++ closingTag ++ layout.after.toList)
  rw [← hRest] at hDivider
  have hCut := (Text.eq_append_of_cutInner hDivider).2
  obtain ⟨more, hMore⟩ := Text.exists_between (hCut.symm.trans hRest)
    (Text.length_le_of_cutInner hDivider hLonger hRest)
  have hTail : tail = (more ++ layout.params.toList) ++ closingTag ++ layout.after.toList := by
    simp only [hMore, List.append_assoc]
  obtain ⟨params, after, hClosing⟩ := Text.exists_cutLast (more ++ layout.params.toList) closingTag
    layout.after.toList
  rw [← hTail] at hClosing
  have hLength := Text.length_le_of_cutLast hClosing hTail
  cases params with
  | nil =>
    have hPositive := List.length_pos_iff.mpr hParams
    simp only [List.length_append, List.length_nil] at hLength
    omega
  | cons c params =>
    refine ⟨⟨String.ofList name, String.ofList (c :: params)⟩, ?_⟩
    simp only [onStretch?, hOpening, body?, hDivider, hClosing]

theorem read?_eq_onStretch? {line : String} (hLine : '\n' ∉ line.toList) :
    read? line = onStretch? line.toList := by
  rw [read?, List.splitOn_eq_singleton hLine, List.findSome?_cons]
  cases onStretch? line.toList <;> rfl

/-- An annotation is read as the layout that counts has it. -/
theorem read?_eq_some_iff {line : String} (hLine : '\n' ∉ line.toList) {found : Annotation} :
    read? line = some found ↔ ∃ layout : Layout, layout.IsPreferred line ∧
      found = ⟨layout.name, layout.params⟩ := by
  rw [read?_eq_onStretch? hLine]
  constructor
  · intro h
    obtain ⟨before, after, hPreferred⟩ := isPreferred_of_onStretch? h
    exact ⟨_, hPreferred, rfl⟩
  · rintro ⟨layout, hPreferred, rfl⟩
    obtain ⟨found, hFound⟩ := exists_onStretch?_of_fits hPreferred.toFits
    obtain ⟨before, after, hOther⟩ := isPreferred_of_onStretch? hFound
    obtain rfl := hPreferred.eq hOther
    exact hFound

/-- No annotation is read exactly from the lines without a layout. -/
theorem read?_eq_none_iff {line : String} (hLine : '\n' ∉ line.toList) :
    read? line = none ↔ ¬ ∃ layout : Layout, layout.Fits line := by
  rw [read?_eq_onStretch? hLine]
  constructor
  · rintro h ⟨layout, hFits⟩
    obtain ⟨found, hFound⟩ := exists_onStretch?_of_fits hFits
    cases h.symm.trans hFound
  · intro h
    cases hFound : onStretch? line.toList with
    | none => rfl
    | some found =>
      obtain ⟨before, after, hPreferred⟩ := isPreferred_of_onStretch? hFound
      exact absurd ⟨_, hPreferred.toFits⟩ h

end Annotation

/-! ## What a rule does with a layout -/

namespace Operation

/-- The text that an operation with a table classifies: its parameters as written, and for
simultaneous presses the next pseudo key in front of them. -/
def tableText (operation : Operation) (suffix : Nat) (params : String) : String :=
  if operation = simultaneousKeyPresses then
    "KeyCode::VK_SIMULTANEOUSKEYPRESSES_" ++ suffix.repr ++ ", " ++ params
  else params

theorem fst_operands (operation : Operation) (params : String) (numbering : Numbering) :
    (operation.operands params numbering).1 = operation.tableText numbering.suffixes params := by
  have hKey : OperandKind.keyCode.name ++ "::" ++ pseudoKey numbering.suffixes =
      "KeyCode::VK_SIMULTANEOUSKEYPRESSES_" ++ numbering.suffixes.repr := by
    simp [OperandKind.name, pseudoKey, pseudoKeyStem, ← String.append_assoc]
  cases operation with
  | simultaneousKeyPresses => simp only [operands, tableText, if_pos, hKey]
  | _ => rfl

end Operation

namespace Rule

variable {resolver : Resolver} {line : String} {numbering : Numbering} {rule : Rule}

/-- A line that is not for the guard is left alone exactly if it has no annotation. -/
theorem outcome_eq_passthrough_iff (hOffer : rule.guard.offer line = none) :
    (rule.compileLine resolver line numbering).outcome = .ok .passthrough ↔
      Annotation.read? line = none := by
  have hCase := compileLine_case resolver line numbering rule
  generalize rule.compileLine resolver line numbering = step at hCase ⊢
  cases hCase with
  | clause hClause => cases hOffer.symm.trans hClause
  | plain _ hRead => simp [hRead]
  | _ _ hRead => simp [hRead]

/-- An annotation fails for its name exactly if no operation has it. -/
theorem outcome_eq_unknown_iff {found : Annotation} (hOffer : rule.guard.offer line = none)
    (hRead : Annotation.read? line = some found) {name : String} :
    (rule.compileLine resolver line numbering).outcome =
        .error (.unknownOperation rule.name name) ↔
      name = found.operation ∧ ∀ operation : Operation, operation.name ≠ name := by
  have hCase := compileLine_case resolver line numbering rule
  generalize rule.compileLine resolver line numbering = step at hCase ⊢
  cases hCase with
  | clause hClause => cases hOffer.symm.trans hClause
  | plain _ hNone => cases hRead.symm.trans hNone
  | unknown _ hFound hName =>
    cases hRead.symm.trans hFound
    have hUnknown := Operation.ofName?_eq_none_iff.mp hName
    constructor
    · rintro ⟨⟩
      exact ⟨rfl, hUnknown⟩
    · rintro ⟨rfl, _⟩
      rfl
  | _ _ hFound hName =>
    -- the operation that compiles the line has the name
    cases hRead.symm.trans hFound
    have hKnown := Operation.ofName?_eq_some_iff.mp hName
    simp only [reduceCtorEq, Except.error.injEq, false_iff, not_and]
    rintro rfl hNone
    exact hNone _ hKnown

theorem compileLine_of_operation (operation : Operation) {found : Annotation}
    (hOffer : rule.guard.offer line = none) (hRead : Annotation.read? line = some found)
    (hName : operation.name = found.operation) :
    rule.compileLine resolver line numbering =
      rule.compileOperation resolver operation found.params numbering := by
  simp only [compileLine, hOffer, hRead, Operation.ofName?_eq_some_iff.mpr hName]

theorem compileTable_spec (resolver : Resolver) (operation : Operation) (params : String)
    (numbering : Numbering) (rule : Rule) :
    match OperandGroup.classifyParams resolver
        (operation.tableText numbering.suffixes params) with
    | .error cause => (rule.compileTable resolver operation params numbering).outcome =
        .error (.operand rule.name operation.name cause)
    | .ok groups =>
        (rule.compileTable resolver operation params numbering).outcome =
          .ok (.operation operation) ∧
        (rule.compileTable resolver operation params numbering).rule =
          rule.addTable numbering.slots { operation, groups } := by
  have hText := operation.fst_operands params numbering
  rcases hOperands : operation.operands params numbering with ⟨text, after⟩
  rw [hOperands] at hText
  rw [← hText, ← Operation.operands_slots hOperands]
  simp only [compileTable, hOperands]
  cases OperandGroup.classifyParams resolver text with
  | error cause => rfl
  | ok groups => exact ⟨rfl, rfl⟩

/-- **Which operation a line asks for.** Let a line without newline not be for the guard. The rule
leaves it alone exactly if the line has no layout as an annotation. Otherwise exactly one of its
layouts counts, and the rule works with its name and its parameters. If no operation has this very
name, the line fails for the name. The two operations without a table append the parameters,
unaltered, as their expression. Every other operation classifies the parameters, simultaneous
presses with their pseudo key in front, and fails as they do or gets a table of their groups. -/
theorem compileLine_of_layout (resolver : Resolver) {line : String} (numbering : Numbering)
    {rule : Rule} (hLine : '\n' ∉ line.toList) (hOffer : rule.guard.offer line = none) :
    let step := rule.compileLine resolver line numbering
    (step.outcome = .ok .passthrough ↔ ¬ ∃ layout : Annotation.Layout, layout.Fits line) ∧
    ((∃ layout : Annotation.Layout, layout.Fits line) →
      ∃! layout : Annotation.Layout, layout.IsPreferred line) ∧
    ∀ layout : Annotation.Layout, layout.IsPreferred line →
      (∀ name, step.outcome = .error (.unknownOperation rule.name name) ↔
        name = layout.name ∧ ∀ operation : Operation, operation.name ≠ name) ∧
      (layout.name = "SetKeyboardType" →
        step.outcome = .ok (.operation .setKeyboardType) ∧
        step.rule = { rule with
          fragments := rule.fragments.push .keyboardType (.assignKeyboardType layout.params) }) ∧
      (layout.name = "ShowStatusMessage" →
        step.outcome = .ok (.operation .showStatusMessage) ∧
        step.rule = { rule with
          fragments := rule.fragments.push .statusMessage (.returnStatusMessage layout.params) }) ∧
      ∀ operation : Operation, operation.name = layout.name →
        operation ≠ .setKeyboardType → operation ≠ .showStatusMessage →
        match OperandGroup.classifyParams resolver
            (operation.tableText numbering.suffixes layout.params) with
        | .error cause => step.outcome = .error (.operand rule.name operation.name cause)
        | .ok groups => step.outcome = .ok (.operation operation) ∧
            step.rule = rule.addTable numbering.slots { operation, groups } := by
  intro step
  have hNone := Annotation.read?_eq_none_iff hLine
  have hSome := @ Annotation.read?_eq_some_iff line hLine
  refine ⟨(outcome_eq_passthrough_iff hOffer).trans hNone, ?_, ?_⟩
  · intro hFits
    cases hRead : Annotation.read? line with
    | none => exact absurd hFits (hNone.mp hRead)
    | some found =>
      obtain ⟨layout, hPreferred, _⟩ := hSome.mp hRead
      exact ⟨layout, hPreferred, fun other hOther => hOther.eq hPreferred⟩
  · intro layout hPreferred
    have hRead : Annotation.read? line = some ⟨layout.name, layout.params⟩ :=
      hSome.mpr ⟨layout, hPreferred, rfl⟩
    refine ⟨fun name => outcome_eq_unknown_iff hOffer hRead, ?_, ?_, ?_⟩
    · intro hName
      have hStep : step = _ := compileLine_of_operation .setKeyboardType hOffer hRead hName.symm
      rw [hStep]
      exact ⟨rfl, rfl⟩
    · intro hName
      have hStep : step = _ := compileLine_of_operation .showStatusMessage hOffer hRead hName.symm
      rw [hStep]
      exact ⟨rfl, rfl⟩
    · intro operation hName hKeyboard hStatus
      have hTable : operation.needsTable = true := by
        cases operation <;> first | rfl | contradiction
      have hStep : step = rule.compileTable resolver operation layout.params numbering :=
        (compileLine_of_operation operation hOffer hRead hName).trans
          (compileOperation_table resolver _ numbering rule hTable)
      rw [hStep]
      exact compileTable_spec resolver operation layout.params numbering rule

/-- A line with a second divider and a second closing tag: both belong to the parameters. -/
theorem compileLine_of_layout_two_closings :
    ∃ (resolver : Resolver) (line : String) (layout : Annotation.Layout),
      line = "a <autogen>--SetKeyboardType-- -- x</autogen>y</autogen> z" ∧
      '\n' ∉ line.toList ∧ (new "r" (.filter [])).guard.offer line = none ∧
      layout.IsPreferred line ∧ layout.name = "SetKeyboardType" ∧
      layout.params = "-- x</autogen>y" ∧
      ((new "r" (.filter [])).compileLine resolver line {}).rule.fragments.get .keyboardType =
        [.assignKeyboardType layout.params] := by
  let resolver : Resolver := { code? := fun _ _ => none, flag? := fun _ => none }
  obtain ⟨line, hLine⟩ : ∃ line : String,
      line = "a <autogen>--SetKeyboardType-- -- x</autogen>y</autogen> z" := ⟨_, rfl⟩
  have hNewline : '\n' ∉ line.toList := by
    subst hLine
    decide +kernel
  have hOffer : (new "r" (.filter [])).guard.offer line = none := by
    subst hLine
    decide +kernel
  have hRead : Annotation.read? line = some ⟨"SetKeyboardType", "-- x</autogen>y"⟩ := by
    subst hLine
    decide +kernel
  have hSome := @ Annotation.read?_eq_some_iff line hNewline
  obtain ⟨layout, hPreferred, hFound⟩ := hSome.mp hRead
  obtain ⟨hName, hParams⟩ := Annotation.mk.inj hFound
  obtain ⟨_, _, hLayout⟩ := compileLine_of_layout resolver {} hNewline hOffer
  obtain ⟨_, hKeyboard, _⟩ := hLayout layout hPreferred
  refine ⟨resolver, line, layout, hLine, hNewline, hOffer, hPreferred, hName.symm, hParams.symm, ?_⟩
  rw [(hKeyboard hName.symm).2]
  simp [new]

end Rule

end KeyRemap
