import KeyRemap.Proofs.Cuts
import KeyRemap.Proofs.Line
import KeyRemap.Proofs.Names
import KeyRemap.Proofs.Padding
import Mathlib.Data.List.Forall2

/-!
# Which lines are filter lines

A filter line consists of one element with nothing but blanks around it: the opening tag of a filter
kind, a body without newline and the closing tag of the same kind. Some field of the body, between
commas, is not blank. The body may hold tags of its own, opening and closing ones, since the element
ends with the line; a line can be taken apart in this way once at most.

* `FilterClause.tagName?_eq_some_iff`, `FilterClause.bodyAndClosing?_eq_some_iff`,
  `FilterClause.element?_eq_some_iff`: what the readers accept, as concatenations.
* `FilterLayout.eq_of_fits`: a line has one layout at most.
* `FilterClause.read?_eq_some_iff`: a clause is read exactly from a line with a layout.
* `Guard.offer_of_layout`: what a guard does with a line, in terms of layouts.
-/

namespace KeyRemap

/-! ## Layouts -/

/-- A text seen as a filter element with something before and after it. -/
structure FilterLayout where
  before : String
  kind : FilterKind
  body : String
  after : String

namespace FilterLayout

def text (layout : FilterLayout) : String :=
  layout.before ++ "<" ++ layout.kind.tag ++ ">" ++ layout.body ++ "</" ++ layout.kind.tag ++ ">" ++
    layout.after

/-- A line is a filter line with this layout. -/
structure Fits (layout : FilterLayout) (line : String) : Prop where
  line_eq : line = layout.text
  before_blank : layout.before.toList.all Text.isBlank = true
  after_blank : layout.after.toList.all Text.isBlank = true
  no_newline : '\n' ∉ layout.body.toList
  value : ∃ field ∈ Text.fields ',' layout.body, ¬ field.toList.all Text.isBlank = true

/-- The clause of a layout: its kind, and the fields of its body that are not blank, trimmed. -/
def clause (layout : FilterLayout) : FilterClause where
  kind := layout.kind
  values := ((Text.fields ',' layout.body).filter fun field =>
    !field.toList.all Text.isBlank).map Text.trimmed

theorem toList_text (layout : FilterLayout) :
    layout.text.toList = layout.before.toList ++ '<' :: (layout.kind.tag.toList ++ '>' ::
      (layout.body.toList ++ "</".toList ++ (layout.kind.tag.toList ++ '>' ::
        layout.after.toList))) := by
  unfold text
  simp

theorem values_clause (layout : FilterLayout) :
    layout.clause.values = Text.pieces ',' layout.body.toList := by
  rw [Text.pieces_eq, clause, Text.fields, List.filter_map, List.map_map]
  simp [Function.comp_def, Text.trimmed]

theorem pieces_ne_nil_iff (body : String) : Text.pieces ',' body.toList ≠ [] ↔
    ∃ field ∈ Text.fields ',' body, ¬ field.toList.all Text.isBlank = true := by
  rw [Text.pieces_eq, Text.fields]
  simp

end FilterLayout

/-! ## Tags -/

namespace FilterClause

/-- The name of a tag. -/
def IsTagName (name : List Char) : Prop :=
  name ≠ [] ∧ ∀ c ∈ name, isTagChar c = true

theorem isTagName_tag (kind : FilterKind) : IsTagName kind.tag.toList := by
  have hChars : kind.tag.toList.all isTagChar = true := by
    cases kind <;> decide
  refine ⟨?_, List.all_eq_true.mp hChars⟩
  cases kind <;> decide

/-- A tag name is read up to the angle bracket. -/
theorem tagName?_eq_some_iff {cs name rest : List Char} :
    tagName? cs = some (name, rest) ↔ IsTagName name ∧ cs = name ++ '>' :: rest := by
  constructor
  · intro h
    unfold tagName? at h
    split at h
    · cases h
    · cases h
    · rename_i c name rest hName hRest
      cases h
      refine ⟨⟨List.cons_ne_nil _ _, ?_⟩, ?_⟩
      · rw [← hName]
        exact fun c hc => List.mem_takeWhile_imp hc
      · have hCs := cs.takeWhile_append_dropWhile (p := isTagChar)
        rw [hName, ← Text.after?_eq_some_iff.mp hRest] at hCs
        exact hCs.symm
  · rintro ⟨⟨hNil, hTag⟩, rfl⟩
    have hEnd : ¬ isTagChar '>' = true := by decide
    have hName : (name ++ '>' :: rest).takeWhile isTagChar = name := by
      rw [List.takeWhile_append_of_pos hTag, List.takeWhile_cons_of_neg hEnd, List.append_nil]
    have hRest : (name ++ '>' :: rest).dropWhile isTagChar = '>' :: rest := by
      rw [List.dropWhile_append_of_pos hTag, List.dropWhile_cons_of_neg hEnd]
    have hAfter : Text.after? ['>'] ('>' :: rest) = some rest := rfl
    obtain ⟨c, name, rfl⟩ := List.exists_cons_of_ne_nil hNil
    simp only [tagName?, hName, hRest, hAfter]

/-- Behind its name a closing tag has no further mark of one. -/
theorem not_mem_closing {closing after : List Char} (hTag : IsTagName closing)
    (hAfter : after.all Text.isBlank = true) : '<' ∉ closing ++ '>' :: after := by
  simp only [List.mem_append, List.mem_cons, not_or]
  refine ⟨?_, by decide, ?_⟩
  · intro h
    have hChar := hTag.2 '<' h
    revert hChar
    decide
  · intro h
    have hBlank := List.all_eq_true.mp hAfter '<' h
    revert hBlank
    decide

/-- What follows an opening tag is a body without newline, a closing tag and blanks. -/
theorem bodyAndClosing?_eq_some_iff {cs body closing : List Char} :
    bodyAndClosing? cs = some (body, closing) ↔ '\n' ∉ body ∧ IsTagName closing ∧
      ∃ after, after.all Text.isBlank = true ∧
        cs = body ++ "</".toList ++ (closing ++ '>' :: after) := by
  constructor
  · intro h
    unfold bodyAndClosing? at h
    split at h
    · cases h
    · rename_i body rest hCut
      split at h
      · cases h
      · rename_i closing after hClosing
        split at h
        · cases h
        · rename_i hEnds
          cases h
          obtain ⟨hTag, rfl⟩ := tagName?_eq_some_iff.mp hClosing
          obtain ⟨hNewline, hAfter⟩ : '\n' ∉ body ∧ after.all Text.isBlank = true := by
            simpa using hEnds
          exact ⟨hNewline, hTag, after, hAfter, Text.eq_append_of_cutLast hCut⟩
  · rintro ⟨hNewline, hTag, after, hAfter, rfl⟩
    have hMark : '<' ∉ ['/'] := by decide
    have hCut : Text.cutLast "</".toList (body ++ "</".toList ++ (closing ++ '>' :: after)) =
        some (body, closing ++ '>' :: after) :=
      Text.cutLast_eq_of_not_mem hMark body (not_mem_closing hTag hAfter)
    have hClosing : tagName? (closing ++ '>' :: after) = some (closing, after) :=
      tagName?_eq_some_iff.mpr ⟨hTag, rfl⟩
    have hEnds : ¬ (body.contains '\n' || !after.all Text.isBlank) = true := by
      simpa using And.intro hNewline hAfter
    simp only [bodyAndClosing?, hCut, hClosing, if_neg hEnds]

/-- A line is an element: blanks, an opening tag, a body without newline, a closing tag, blanks. -/
theorem element?_eq_some_iff {line opening body closing : List Char} :
    element? line = some (opening, body, closing) ↔
      '\n' ∉ body ∧ IsTagName opening ∧ IsTagName closing ∧
      ∃ before after, before.all Text.isBlank = true ∧ after.all Text.isBlank = true ∧
        line = before ++ '<' :: (opening ++ '>' ::
          (body ++ "</".toList ++ (closing ++ '>' :: after))) := by
  constructor
  · intro h
    unfold element? at h
    split at h
    · cases h
    · rename_i rest hStart
      split at h
      · cases h
      · rename_i opening inner hOpening
        obtain ⟨⟨body, closing⟩, hInner, hEq⟩ := Option.map_eq_some_iff.mp h
        cases hEq
        obtain ⟨hTag, rfl⟩ := tagName?_eq_some_iff.mp hOpening
        obtain ⟨hNewline, hClosing, after, hAfter, rfl⟩ := bodyAndClosing?_eq_some_iff.mp hInner
        have hLine := line.takeWhile_append_dropWhile (p := Text.isBlank)
        rw [← Text.trimStart, ← Text.after?_eq_some_iff.mp hStart] at hLine
        refine ⟨hNewline, hTag, hClosing, line.takeWhile Text.isBlank, after, ?_, hAfter,
          hLine.symm⟩
        exact List.all_eq_true.mpr fun c hc => List.mem_takeWhile_imp hc
  · rintro ⟨hNewline, hTag, hClosing, before, after, hBefore, hAfter, rfl⟩
    have hAngle : ¬ Text.isBlank '<' = true := by decide
    have hInner := bodyAndClosing?_eq_some_iff.mpr ⟨hNewline, hClosing, after, hAfter, rfl⟩
    generalize body ++ "</".toList ++ (closing ++ '>' :: after) = inner at hInner ⊢
    have hOpening : tagName? (opening ++ '>' :: inner) = some (opening, inner) :=
      tagName?_eq_some_iff.mpr ⟨hTag, rfl⟩
    have hStart : Text.trimStart (before ++ '<' :: (opening ++ '>' :: inner)) =
        '<' :: (opening ++ '>' :: inner) := by
      rw [Text.trimStart, List.dropWhile_append_of_pos (List.all_eq_true.mp hBefore),
        List.dropWhile_cons_of_neg hAngle]
    have hAfter : Text.after? ['<'] ('<' :: (opening ++ '>' :: inner)) =
        some (opening ++ '>' :: inner) := rfl
    simp only [element?, hStart, hAfter, hOpening, hInner, Option.map_some]

/-! ## Clauses -/

/-- A line with a layout is the element that the layout describes. -/
theorem element?_of_fits {layout : FilterLayout} {line : String} (h : layout.Fits line) :
    element? line.toList =
      some (layout.kind.tag.toList, layout.body.toList, layout.kind.tag.toList) := by
  refine element?_eq_some_iff.mpr ⟨h.no_newline, isTagName_tag _, isTagName_tag _,
    layout.before.toList, layout.after.toList, h.before_blank, h.after_blank, ?_⟩
  rw [h.line_eq, layout.toList_text]

/-- A clause is read exactly from a filter line, and is the clause of its layout. -/
theorem read?_eq_some_iff {line : String} {clause : FilterClause} :
    read? line = some clause ↔ ∃ layout : FilterLayout, layout.Fits line ∧
      clause = layout.clause := by
  constructor
  · intro h
    unfold read? at h
    split at h
    · cases h
    · rename_i opening body closing hElement
      split at h
      · cases h
      · rename_i hTags
        obtain rfl := not_not.mp hTags
        split at h
        · cases h
        · cases h
        · rename_i kind value values hKind hPieces
          cases h
          obtain ⟨hNewline, _, _, before, after, hBefore, hAfter, hLine⟩ :=
            element?_eq_some_iff.mp hElement
          have hTag : kind.tag.toList = opening := by
            rw [FilterKind.ofTag?_eq_some_iff.mp hKind, String.toList_ofList]
          let layout : FilterLayout :=
            ⟨String.ofList before, kind, String.ofList body, String.ofList after⟩
          have hValues : layout.clause.values = value :: values := by
            rw [layout.values_clause, String.toList_ofList, hPieces]
          refine ⟨layout, ⟨?_, ?_, ?_, ?_, ?_⟩, ?_⟩
          · rw [← String.toList_inj, layout.toList_text, hLine]
            simp only [layout, hTag, String.toList_ofList]
          · rwa [String.toList_ofList]
          · rwa [String.toList_ofList]
          · rwa [String.toList_ofList]
          · rw [← FilterLayout.pieces_ne_nil_iff, String.toList_ofList, hPieces]
            exact List.cons_ne_nil value values
          · rw [← hValues]
            rfl
  · rintro ⟨layout, hFits, rfl⟩
    have hPieces := (FilterLayout.pieces_ne_nil_iff layout.body).mpr hFits.value
    obtain ⟨value, values, hValues⟩ := List.exists_cons_of_ne_nil hPieces
    have hClause : layout.clause = ⟨layout.kind, value :: values⟩ := by
      rw [← hValues, ← layout.values_clause]
      rfl
    have hKind : FilterKind.ofTag? (String.ofList layout.kind.tag.toList) = some layout.kind :=
      FilterKind.ofTag?_eq_some_iff.mpr (String.ofList_toList).symm
    simp only [read?, element?_of_fits hFits, ne_eq, not_true_eq_false, if_false, hKind, hValues,
      hClause]

end FilterClause

/-! ## One layout at most -/

namespace FilterLayout

theorem before_of_fits {layout : FilterLayout} {line : String} (h : layout.Fits line) :
    layout.before.toList = line.toList.takeWhile Text.isBlank := by
  have hAngle : ¬ Text.isBlank '<' = true := by decide
  rw [h.line_eq, layout.toList_text,
    List.takeWhile_append_of_pos (List.all_eq_true.mp h.before_blank),
    List.takeWhile_cons_of_neg hAngle, List.append_nil]

/-- A line has one layout at most: the blanks in front are those that the line begins with, tag and
body are those of the one element that is read, and the rest of the line is what is left. -/
theorem eq_of_fits {layout other : FilterLayout} {line : String} (h : layout.Fits line)
    (hOther : other.Fits line) : layout = other := by
  have hBefore : layout.before = other.before :=
    String.toList_inj.mp ((before_of_fits h).trans (before_of_fits hOther).symm)
  have hElement := (FilterClause.element?_of_fits h).symm.trans
    (FilterClause.element?_of_fits hOther)
  simp only [Option.some.injEq, Prod.mk.injEq, String.toList_inj] at hElement
  obtain ⟨hTag, hBody, _⟩ := hElement
  have hKind := FilterKind.tag_injective hTag
  have hText := congrArg String.toList (h.line_eq.symm.trans hOther.line_eq)
  rw [layout.toList_text, other.toList_text, hBefore, hKind, hBody] at hText
  have hAfter : layout.after = other.after := String.toList_inj.mp (by simpa using hText)
  cases layout
  cases other
  simp_all

end FilterLayout

/-! ## Guards -/

/-- A value that comes through in a filter line: it is not empty, has no blanks at its ends, and
holds neither comma nor newline. It may hold tags. -/
structure IsFilterValue (value : String) : Prop where
  ne_empty : value ≠ ""
  trimmed : Text.trimmed value = value
  no_comma : ',' ∉ value.toList
  no_newline : '\n' ∉ value.toList

namespace IsFilterValue

instance (value : String) : Decidable (IsFilterValue value) :=
  decidable_of_iff
    (value ≠ "" ∧ Text.trimmed value = value ∧ ',' ∉ value.toList ∧ '\n' ∉ value.toList)
    ⟨fun ⟨h₁, h₂, h₃, h₄⟩ => ⟨h₁, h₂, h₃, h₄⟩, fun ⟨h₁, h₂, h₃, h₄⟩ => ⟨h₁, h₂, h₃, h₄⟩⟩

theorem not_blank {value : String} (h : IsFilterValue value) :
    ¬ value.toList.all Text.isBlank = true := by
  rw [← Text.trim_eq_nil_iff]
  intro hTrim
  have hTrimmed := h.trimmed
  rw [Text.trimmed, hTrim] at hTrimmed
  exact h.ne_empty hTrimmed.symm

end IsFilterValue

/-- Values written in fields, each with blanks around it that are not newlines. -/
def ArePadded (values fields : List String) : Prop :=
  List.Forall₂ (fun value field => Text.IsPadded value field ∧ '\n' ∉ field.toList) values fields

section Written

variable {values fields : List String}

theorem values_of_padded (hValues : ∀ value ∈ values, IsFilterValue value)
    (h : ArePadded values fields) :
    (fields.filter fun field => !field.toList.all Text.isBlank).map Text.trimmed = values ∧
      ∀ field ∈ fields, ',' ∉ field.toList ∧ '\n' ∉ field.toList := by
  induction h with
  | nil => simp
  | @cons value field values fields hField _ ih =>
    obtain ⟨hValue, hRest⟩ := List.forall_mem_cons.mp hValues
    obtain ⟨hTrimmed, hClean⟩ := ih hRest
    have hKeep := mt hField.1.all_isBlank_iff.mp hValue.not_blank
    have hComma : ',' ∉ field.toList :=
      fun hMem => hValue.no_comma (hField.1.mem_of_not_isBlank (by decide) hMem)
    refine ⟨?_, List.forall_mem_cons.mpr ⟨⟨hComma, hField.2⟩, hClean⟩⟩
    rw [List.filter_cons_of_pos (by simpa using hKeep), List.map_cons, hTrimmed, Text.trimmed,
      hField.1.trim_eq, ← Text.trimmed, hValue.trimmed]

/-- The element of a filter kind around values that are joined by commas is a filter line, and its
clause has these values. -/
theorem FilterLayout.fits_of_padded (kind : FilterKind) (hNil : values ≠ [])
    (hValues : ∀ value ∈ values, IsFilterValue value) (h : ArePadded values fields) :
    let layout : FilterLayout := ⟨"", kind, ",".intercalate fields, ""⟩
    layout.Fits ("<" ++ kind.tag ++ ">" ++ ",".intercalate fields ++ "</" ++ kind.tag ++ ">") ∧
      layout.clause = ⟨kind, values⟩ := by
  intro layout
  obtain ⟨hTrimmed, hClean⟩ := values_of_padded hValues h
  have hFields : fields ≠ [] := by
    rintro rfl
    cases h
    exact hNil rfl
  have hBody : Text.fields ',' (",".intercalate fields) = fields :=
    Text.fields_intercalate hFields fun field hField => (hClean field hField).1
  have hClause : layout.clause = ⟨kind, values⟩ := by
    rw [clause, hBody, hTrimmed]
  refine ⟨⟨?_, rfl, rfl, ?_, ?_⟩, hClause⟩
  · simp [layout, text]
  · intro hMem
    have hComma : ",".toList = [','] := rfl
    rw [Text.toList_intercalate hComma] at hMem
    rcases Text.mem_of_mem_intercalate hMem with hComma | ⟨_, hField, hMem⟩
    · cases hComma
    · obtain ⟨field, hSource, rfl⟩ := List.mem_map.mp hField
      exact (hClean field hSource).2 hMem
  · rw [← pieces_ne_nil_iff, ← layout.values_clause, hClause]
    exact hNil

end Written

namespace Guard

theorem offer_of_fits (clauses : List FilterClause) {line : String} {layout : FilterLayout}
    (h : layout.Fits line) :
    (filter clauses).offer line = some (filter (clauses ++ [layout.clause])) := by
  have hRead := FilterClause.read?_eq_some_iff.mpr ⟨layout, h, rfl⟩
  simp only [offer, hRead, Option.map_some]

theorem offer_eq_none_iff (clauses : List FilterClause) {line : String} :
    (filter clauses).offer line = Option.none ↔ ¬ ∃ layout : FilterLayout, layout.Fits line := by
  constructor
  · rintro h ⟨layout, hFits⟩
    cases h.symm.trans (offer_of_fits clauses hFits)
  · intro h
    cases hRead : FilterClause.read? line with
    | none => simp only [offer, hRead, Option.map_none]
    | some clause =>
      obtain ⟨layout, hFits, _⟩ := FilterClause.read?_eq_some_iff.mp hRead
      exact absurd ⟨layout, hFits⟩ h

/-- **Which lines are filter lines.** A guard consumes a line exactly if the line has a layout:
blanks, the element of a filter kind with a body that holds no newline and has a field that is not
blank, and blanks. The layout is then the only one, and the guard gets one clause more, at the end:
that of the layout. A line without layout leaves the guard of its rule as it is. And whatever values
are written between the tags of a kind, with commas between them and with blanks that are not
newlines around them, the line is consumed and gives the clause of that kind with these values, tags
inside of the values included. -/
theorem offer_of_layout (clauses : List FilterClause) (line : String) :
    (((filter clauses).offer line).isSome = true ↔ ∃ layout : FilterLayout, layout.Fits line) ∧
    (∀ layout other : FilterLayout, layout.Fits line → other.Fits line → layout = other) ∧
    (∀ layout : FilterLayout, layout.Fits line →
      (filter clauses).offer line = some (filter (clauses ++ [layout.clause]))) ∧
    ((¬ ∃ layout : FilterLayout, layout.Fits line) →
      ∀ (resolver : Resolver) (numbering : Numbering) (rule : Rule), rule.guard = filter clauses →
        (rule.compileLine resolver line numbering).rule.guard = filter clauses) ∧
    ∀ (kind : FilterKind) (values fields : List String), values ≠ [] →
      (∀ value ∈ values, IsFilterValue value) → ArePadded values fields →
      line = "<" ++ kind.tag ++ ">" ++ ",".intercalate fields ++ "</" ++ kind.tag ++ ">" →
      (filter clauses).offer line = some (filter (clauses ++ [⟨kind, values⟩])) := by
  refine ⟨?_, fun _ _ => FilterLayout.eq_of_fits, fun _ => offer_of_fits clauses, ?_, ?_⟩
  · rw [← not_iff_not, ← offer_eq_none_iff clauses]
    simp
  · intro hNone resolver numbering rule hGuard
    have hRead := (offer_eq_none_iff clauses).mpr hNone
    rw [offer_eq, Option.map_eq_none_iff] at hRead
    rw [Rule.guard_compileLine, hGuard, hRead]
    exact extend_nil _
  · rintro kind values fields hNil hValues hPadded rfl
    obtain ⟨hFits, hClause⟩ := FilterLayout.fits_of_padded kind hNil hValues hPadded
    rw [offer_of_fits clauses hFits, hClause]

/-- Two values with tags in them, one a closing tag of the line's own kind. -/
theorem offer_of_layout_nested_tags :
    ∃ (line : String) (values fields : List String),
      line = "<only>\ta</only> ,<not>b</not>\u00a0</only>" ∧
      values = ["a</only>", "<not>b</not>"] ∧ fields = ["\ta</only> ", "<not>b</not>\u00a0"] ∧
      (∀ value ∈ values, IsFilterValue value) ∧ ArePadded values fields ∧
      (∃ layout : FilterLayout, layout.Fits line) ∧
      (filter []).offer line = some (filter [⟨.applicationOnly, values⟩]) := by
  have hValues : ∀ value ∈ ["a</only>", "<not>b</not>"], IsFilterValue value := by
    decide +kernel
  have hPadded : ArePadded ["a</only>", "<not>b</not>"] ["\ta</only> ", "<not>b</not>\u00a0"] :=
    .cons ⟨⟨"\t", " ", by decide, by decide, by decide +kernel⟩, by decide⟩
      (.cons ⟨⟨"", "\u00a0", by decide, by decide, by decide +kernel⟩, by decide⟩ .nil)
  obtain ⟨hIff, _, _, _, hWritten⟩ :=
    offer_of_layout [] "<only>\ta</only> ,<not>b</not>\u00a0</only>"
  have hOffer := hWritten .applicationOnly _ _ (by decide) hValues hPadded (by decide +kernel)
  have hFits := hIff.mp (by rw [hOffer]; rfl)
  exact ⟨_, _, _, rfl, rfl, rfl, hValues, hPadded, hFits, hOffer⟩

end Guard

end KeyRemap
