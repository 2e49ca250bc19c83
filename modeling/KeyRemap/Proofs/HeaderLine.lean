import KeyRemap.Proofs.Cuts
import KeyRemap.Proofs.Padding
import KeyRemap.Proofs.Part
import KeyRemap.Proofs.SourceBoundary

/-!
# Which rule a header opens

A header can often be laid out in more than one way: the blanks in front of a name can belong to the
name, a name can reach over a closing tag to a later one, and tags may come again. Of all ways to
lay a line out that one counts which has the least before the tag, then the most blanks before the
name, then the shortest name; the blanks behind the name are then settled. Where something that is
not blank stands between the first opening tag and the closing tag next to it, this comes down to
trimming what stands there.

* `Header.Layout.IsPreferred`: the layout that counts; there is at most one.
* `Header.read?_eq_some_iff`, `Header.read?_eq_none_iff`: a name is read by the layout that counts,
  and from every line that can be laid out at all.
* `Header.IsFirstElement.isPreferred`: the layout that trims the text between the first tags counts.
* `Compiler.readLine_of_element`: what a line with or without tags does to a reading.
-/

namespace KeyRemap

/-! ## Blanks at the ends of a text -/

namespace Text

theorem trimEnd_append_blanks (cs : List Char) {after : List Char}
    (h : after.all isBlank = true) : trimEnd (cs ++ after) = trimEnd cs := by
  have hBack : ∀ c ∈ after.reverse, isBlank c = true := by
    intro c hc
    exact List.all_eq_true.mp h c (List.mem_reverse.mp hc)
  rw [trimEnd, List.reverse_append, List.dropWhile_append_of_pos hBack, ← trimEnd]

/-- Trimming takes blanks from the end of a text and nothing else. -/
theorem exists_trimEnd_append (cs : List Char) :
    ∃ blanks, blanks.all isBlank = true ∧ cs = trimEnd cs ++ blanks := by
  refine ⟨(cs.reverse.takeWhile isBlank).reverse, ?_, ?_⟩
  · rw [List.all_reverse, List.all_eq_true]
    intro c hc
    exact List.mem_takeWhile_imp hc
  · rw [trimEnd, ← List.reverse_append, List.takeWhile_append_dropWhile, List.reverse_reverse]

theorem length_trimEnd_le (cs : List Char) : (trimEnd cs).length ≤ cs.length := by
  obtain ⟨blanks, _, hCs⟩ := exists_trimEnd_append cs
  have hLength := congrArg List.length hCs
  rw [List.length_append] at hLength
  omega

/-- A text begins with the blanks that trimming takes from its start. -/
theorem exists_append_trimStart (cs : List Char) :
    ∃ blanks, blanks.all isBlank = true ∧ cs = blanks ++ trimStart cs := by
  refine ⟨cs.takeWhile isBlank, ?_, (List.takeWhile_append_dropWhile).symm⟩
  rw [List.all_eq_true]
  intro c hc
  exact List.mem_takeWhile_imp hc

theorem isBlank_head?_trimStart (cs : List Char) {c : Char} (h : c ∈ (trimStart cs).head?) :
    isBlank c = false := by
  have hHead := List.head?_dropWhile_not isBlank cs
  rw [← trimStart, h] at hHead
  exact hHead

theorem isBlank_getLast?_trimEnd {cs : List Char} {c : Char} (h : c ∈ (trimEnd cs).getLast?) :
    isBlank c = false := by
  rw [trimEnd, List.getLast?_reverse, ← trimStart] at h
  exact isBlank_head?_trimStart _ h

/-- Of a text that begins with another character than a blank, trimming leaves the beginning. -/
theorem head?_trimEnd (cs : List Char) (hFirst : ∀ c ∈ cs.head?, isBlank c = false) :
    (trimEnd cs).head? = cs.head? := by
  obtain ⟨blanks, hBlanks, hCs⟩ := exists_trimEnd_append cs
  cases hTrim : trimEnd cs with
  | cons c rest =>
    rw [hTrim] at hCs
    rw [hCs]
    rfl
  | nil =>
    rw [hTrim, List.nil_append] at hCs
    cases blanks with
    | nil => rw [hCs]
    | cons c blanks =>
      have hBlank := List.all_eq_true.mp hBlanks c List.mem_cons_self
      rw [hFirst c (by rw [hCs]; rfl)] at hBlank
      cases hBlank

/-- Blanks at the start of a text do not reach beyond its first character that is none. -/
theorem length_le_of_blanks {blanks rest other tail : List Char}
    (hRest : ∀ c ∈ rest.head?, isBlank c = false) (hOther : other.all isBlank = true)
    (h : blanks ++ rest = other ++ tail) : other.length ≤ blanks.length := by
  rcases List.append_eq_append_iff.mp h with ⟨more, hOtherEq, hRestEq⟩ | ⟨more, hBlanks, _⟩
  · cases more with
    | nil => simp [hOtherEq]
    | cons c more =>
      have hBlank : isBlank c = true := by
        apply List.all_eq_true.mp hOther
        rw [hOtherEq]
        simp
      rw [hRest c (by rw [hRestEq]; rfl)] at hBlank
      cases hBlank
  · rw [hBlanks, List.length_append]
    omega

end Text

namespace Header

/-! ## Layouts -/

/-- A text seen as a header with something before and after it. -/
structure Layout where
  before : String
  lead : String
  name : String
  trail : String
  after : String

namespace Layout

def text (layout : Layout) : String :=
  layout.before ++ "<identifier>" ++ layout.lead ++ layout.name ++ layout.trail ++
    "</identifier>" ++ layout.after

/-- A line can be laid out like this: there is a name, and only blanks stand between it and the
tags. -/
structure Fits (layout : Layout) (line : String) : Prop where
  line_eq : line = layout.text
  lead_blank : layout.lead.toList.all Text.isBlank = true
  name_ne : layout.name ≠ ""
  trail_blank : layout.trail.toList.all Text.isBlank = true

/-- Of the layouts of a line, the one with the least before the header, then with the most blanks
before the name, then with the shortest name. -/
structure IsPreferred (layout : Layout) (line : String) : Prop extends layout.Fits line where
  before_le : ∀ other : Layout, other.Fits line → layout.before.length ≤ other.before.length
  le_lead : ∀ other : Layout, other.Fits line → other.before.length = layout.before.length →
    other.lead.length ≤ layout.lead.length
  name_le : ∀ other : Layout, other.Fits line → other.before.length = layout.before.length →
    other.lead.length = layout.lead.length → layout.name.length ≤ other.name.length

/-- What follows the opening tag of a layout. -/
def rest (layout : Layout) : List Char :=
  layout.lead.toList ++
    (layout.name.toList ++ layout.trail.toList ++ closingTag ++ layout.after.toList)

theorem toList_text (layout : Layout) :
    layout.text.toList = layout.before.toList ++ openingTag ++ layout.rest := by
  unfold text rest openingTag closingTag
  simp only [String.toList_append, List.append_assoc]

theorem Fits.toList_line {layout : Layout} {line : String} (h : layout.Fits line) :
    line.toList = layout.before.toList ++ openingTag ++ layout.rest := by
  rw [h.line_eq, toList_text]

theorem Fits.content_ne {layout : Layout} {line : String} (h : layout.Fits line) :
    layout.name.toList ++ layout.trail.toList ≠ [] := by
  apply List.append_ne_nil_of_left_ne_nil
  simpa using h.name_ne

theorem head?_closingTag_append (after : List Char) :
    ∀ c ∈ (closingTag ++ after).head?, Text.isBlank c = false := by
  have hHead : (closingTag ++ after).head? = some '<' := rfl
  rw [hHead]
  rintro c ⟨⟩
  decide

/-- At most one layout of a line counts. -/
theorem IsPreferred.eq {layout other : Layout} {line : String} (h : layout.IsPreferred line)
    (hOther : other.IsPreferred line) : layout = other := by
  have hBefore : layout.before.length = other.before.length :=
    Nat.le_antisymm (h.before_le other hOther.toFits) (hOther.before_le layout h.toFits)
  have hLead : layout.lead.length = other.lead.length :=
    Nat.le_antisymm (hOther.le_lead layout h.toFits hBefore)
      (h.le_lead other hOther.toFits hBefore.symm)
  have hName : layout.name.length = other.name.length :=
    Nat.le_antisymm (h.name_le other hOther.toFits hBefore.symm hLead.symm)
      (hOther.name_le layout h.toFits hBefore hLead)
  simp only [← String.length_toList] at hBefore hLead hName
  have hText := h.toList_line.symm.trans hOther.toList_line
  obtain ⟨hBefore, hText⟩ := Text.eq_of_length_eq hText hBefore
  obtain ⟨hLead, hText⟩ := List.append_inj hText hLead
  simp only [List.append_assoc] at hText
  obtain ⟨hName, hText⟩ := List.append_inj hText hName
  -- the blanks behind the name go on to the tag, which begins with none
  have hTrail : layout.trail.toList.length = other.trail.toList.length :=
    Nat.le_antisymm
      (Text.length_le_of_blanks (head?_closingTag_append _) h.trail_blank hText.symm)
      (Text.length_le_of_blanks (head?_closingTag_append _) hOther.trail_blank hText)
  obtain ⟨hTrail, hText⟩ := List.append_inj hText hTrail
  have hAfter := List.append_cancel_left hText
  rw [String.toList_inj] at hBefore hLead hName hTrail hAfter
  cases layout
  cases other
  simp_all

end Layout

/-! ## The layout that is read -/

/-- A name that begins with another character than a blank, up to the first closing tag behind that
character and without the blanks at its end, belongs to the layout that counts. -/
theorem isPreferred_of_inner {line : String} {before lead inner after : List Char}
    (hOpening : Text.cutFirst openingTag line.toList =
      some (before, lead ++ (inner ++ closingTag ++ after)))
    (hLead : lead.all Text.isBlank = true)
    (hFirst : ∀ c ∈ (inner ++ closingTag ++ after).head?, Text.isBlank c = false)
    (hClosing : Text.cutInner closingTag (inner ++ closingTag ++ after) = some (inner, after)) :
    ∃ trail : String, Layout.IsPreferred ⟨String.ofList before, String.ofList lead,
      String.ofList (Text.trimEnd inner), trail, String.ofList after⟩ line := by
  have hLine := Text.eq_append_of_cutFirst hOpening
  obtain ⟨hNil, _⟩ := Text.eq_append_of_cutInner hClosing
  obtain ⟨trail, hTrail, hInner⟩ := Text.exists_trimEnd_append inner
  have hName : Text.trimEnd inner ≠ [] := by
    obtain ⟨c, inner, rfl⟩ := List.exists_cons_of_ne_nil hNil
    intro hTrim
    have hHead := Text.head?_trimEnd (c :: inner) (by simpa using hFirst)
    rw [hTrim] at hHead
    cases hHead
  refine ⟨String.ofList trail, ⟨?_, ?_, ?_, ?_⟩, ?_, ?_, ?_⟩
  · rw [← String.toList_inj, Layout.toList_text, hLine]
    simp only [Layout.rest, String.toList_ofList, ← hInner]
  · simpa using hLead
  · simpa using hName
  · simpa using hTrail
  · intro other hOther
    simp only [← String.length_toList, String.toList_ofList]
    exact Text.length_le_of_cutFirst hOpening hOther.toList_line
  · intro other hOther hBefore
    simp only [← String.length_toList, String.toList_ofList] at hBefore ⊢
    have hText := hLine.symm.trans hOther.toList_line
    obtain ⟨_, hText⟩ := Text.eq_of_length_eq hText hBefore.symm
    exact Text.length_le_of_blanks hFirst hOther.lead_blank hText
  · intro other hOther hBefore hOtherLead
    simp only [← String.length_toList, String.toList_ofList] at hBefore hOtherLead ⊢
    have hText := hLine.symm.trans hOther.toList_line
    obtain ⟨_, hText⟩ := Text.eq_of_length_eq hText hBefore.symm
    obtain ⟨_, hText⟩ := List.append_inj hText hOtherLead.symm
    have hLe := Text.length_le_of_cutInner hClosing hOther.content_ne hText
    -- a name that ends before the text does leaves nothing but blanks of it
    by_cases hLonger : inner.length ≤ other.name.toList.length
    · exact Nat.le_trans (Text.length_trimEnd_le inner) hLonger
    · have hText : inner ++ (closingTag ++ after) =
          other.name.toList ++ (other.trail.toList ++ (closingTag ++ other.after.toList)) := by
        simpa using hText
      rcases List.append_eq_append_iff.mp hText with ⟨more, hMore, _⟩ | ⟨more, hMore, hRest⟩
      · have hLength := congrArg List.length hMore
        rw [List.length_append] at hLength
        omega
      · have hBlank : more.all Text.isBlank = true := by
          have hStart : more <+: other.trail.toList := by
            have hMoreRest : more <+: other.trail.toList ++ (closingTag ++ other.after.toList) :=
              ⟨_, hRest.symm⟩
            apply List.prefix_of_prefix_length_le hMoreRest (List.prefix_append _ _)
            have hLength := congrArg List.length hMore
            rw [List.length_append] at hLength hLe
            omega
          rw [List.all_eq_true]
          intro c hc
          exact List.all_eq_true.mp hOther.trail_blank c (hStart.subset hc)
        rw [hMore, Text.trimEnd_append_blanks _ hBlank]
        exact Text.length_trimEnd_le _

/-- Where the first opening tag is followed by blanks and the only closing tag behind it, the last
blank is the name in the layout that counts. -/
theorem isPreferred_of_blanks {line : String} {before blanks after : List Char} {last : Char}
    (hOpening : Text.cutFirst openingTag line.toList =
      some (before, blanks ++ [last] ++ (closingTag ++ after)))
    (hBlanks : (blanks ++ [last]).all Text.isBlank = true)
    (hOnly : Text.cutInner closingTag (closingTag ++ after) = none) :
    Layout.IsPreferred ⟨String.ofList before, String.ofList blanks, String.ofList [last], "",
      String.ofList after⟩ line := by
  have hLine := Text.eq_append_of_cutFirst hOpening
  refine ⟨⟨?_, ?_, ?_, rfl⟩, ?_, ?_, ?_⟩
  · rw [← String.toList_inj, Layout.toList_text, hLine]
    simp [Layout.rest]
  · rw [List.all_append] at hBlanks
    simpa using (Bool.and_eq_true_iff.mp hBlanks).1
  · simp
  · intro other hOther
    simp only [← String.length_toList, String.toList_ofList]
    exact Text.length_le_of_cutFirst hOpening hOther.toList_line
  · intro other hOther hBefore
    simp only [← String.length_toList, String.toList_ofList] at hBefore ⊢
    have hText := hLine.symm.trans hOther.toList_line
    obtain ⟨_, hText⟩ := Text.eq_of_length_eq hText hBefore.symm
    have hLe := Text.length_le_of_blanks (Layout.head?_closingTag_append after)
      hOther.lead_blank hText
    -- were the last blank not part of the name, the name would need a closing tag behind the only one
    refine Nat.le_of_not_lt fun hLt => ?_
    have hLength : (blanks ++ [last]).length = other.lead.toList.length := by
      rw [List.length_append] at hLe ⊢
      simp only [List.length_singleton] at hLe ⊢
      omega
    obtain ⟨_, hText⟩ := List.append_inj hText hLength
    obtain ⟨first, tail, hCut⟩ := Text.exists_cutInner hOther.content_ne closingTag
      other.after.toList
    rw [← hText, hOnly] at hCut
    cases hCut
  · intro other hOther _ _
    simp only [← String.length_toList, String.toList_ofList, List.length_singleton]
    have hName : other.name.toList ≠ [] := by simpa using hOther.name_ne
    exact List.length_pos_iff.mpr hName

/-- The cuts of a name that is read: what follows the first opening tag is a text that does not
begin with a blank, up to a closing tag, or there are only blanks up to the only closing tag. -/
theorem exists_of_read? {line name : String} (h : read? line = some name) :
    (∃ before lead inner after,
      Text.cutFirst openingTag line.toList =
        some (before, lead ++ (inner ++ closingTag ++ after)) ∧
      lead.all Text.isBlank = true ∧
      (∀ c ∈ (inner ++ closingTag ++ after).head?, Text.isBlank c = false) ∧
      Text.cutInner closingTag (inner ++ closingTag ++ after) = some (inner, after) ∧
      name = String.ofList (Text.trimEnd inner)) ∨
    (∃ before blanks last after,
      Text.cutFirst openingTag line.toList =
        some (before, blanks ++ [last] ++ (closingTag ++ after)) ∧
      (blanks ++ [last]).all Text.isBlank = true ∧
      Text.cutInner closingTag (closingTag ++ after) = none ∧
      name = String.ofList [last]) := by
  unfold read? at h
  split at h
  · cases h
  · rename_i before rest hOpening
    obtain ⟨chars, hName, rfl⟩ := Option.map_eq_some_iff.mp h
    have hBlanks : (rest.takeWhile Text.isBlank).all Text.isBlank = true := by
      rw [List.all_eq_true]
      intro c hc
      exact List.mem_takeWhile_imp hc
    have hRest : rest = rest.takeWhile Text.isBlank ++ Text.trimStart rest :=
      (List.takeWhile_append_dropWhile).symm
    have hFirst : ∀ c ∈ (Text.trimStart rest).head?, Text.isBlank c = false :=
      fun c hc => Text.isBlank_head?_trimStart rest hc
    simp only [name?] at hName
    split at hName
    · rename_i inner after hClosing
      cases hName
      have hText := (Text.eq_append_of_cutInner hClosing).2
      rw [hText] at hRest hFirst hClosing
      rw [hRest] at hOpening
      exact .inl ⟨before, _, inner, after, hOpening, hBlanks, hFirst, hClosing, rfl⟩
    · rename_i after hClosing hAfter
      obtain ⟨last, hLast, rfl⟩ := Option.map_eq_some_iff.mp hName
      obtain ⟨blanks, hSplit⟩ := List.getLast?_eq_some_iff.mp hLast
      have hText := Text.after?_eq_some_iff.mp hAfter
      rw [← hText] at hRest hClosing
      rw [hSplit] at hRest hBlanks
      rw [hRest] at hOpening
      exact .inr ⟨before, blanks, last, after, hOpening, hBlanks, hClosing, rfl⟩
    · cases hName

theorem isPreferred_of_read? {line name : String} (h : read? line = some name) :
    ∃ layout : Layout, layout.IsPreferred line ∧ layout.name = name := by
  rcases exists_of_read? h with
    ⟨before, lead, inner, after, hOpening, hLead, hFirst, hClosing, rfl⟩ |
    ⟨before, blanks, last, after, hOpening, hBlanks, hOnly, rfl⟩
  · obtain ⟨trail, hPreferred⟩ := isPreferred_of_inner hOpening hLead hFirst hClosing
    exact ⟨_, hPreferred, rfl⟩
  · exact ⟨_, isPreferred_of_blanks hOpening hBlanks hOnly, rfl⟩

/-- What follows an opening tag gives a name if something stands before a closing tag in it. -/
theorem exists_name? {content : List Char} (hNil : content ≠ []) (after : List Char) :
    ∃ name, name? (content ++ closingTag ++ after) = some name := by
  rw [List.append_assoc]
  by_cases hBlank : Text.trimStart content = []
  · have hAll : ∀ c ∈ content, Text.isBlank c = true := List.dropWhile_eq_nil_iff.mp hBlank
    have hTag : ¬ Text.isBlank '<' = true := by decide
    have hStart : Text.trimStart (content ++ (closingTag ++ after)) = closingTag ++ after := by
      rw [Text.trimStart, List.dropWhile_append_of_pos hAll]
      exact List.dropWhile_cons_of_neg hTag
    have hTake : (content ++ (closingTag ++ after)).takeWhile Text.isBlank = content := by
      have hStop : (closingTag ++ after).takeWhile Text.isBlank = [] :=
        List.takeWhile_cons_of_neg hTag
      rw [List.takeWhile_append_of_pos hAll, hStop, List.append_nil]
    have hAfter : Text.after? closingTag (closingTag ++ after) = some after :=
      Text.after?_eq_some_iff.mpr rfl
    simp only [name?, hStart, hAfter, hTake, List.getLast?_eq_some_getLast hNil]
    cases Text.cutInner closingTag (closingTag ++ after) with
    | some cut => exact ⟨_, rfl⟩
    | none => exact ⟨_, rfl⟩
  · have hStart : Text.trimStart (content ++ (closingTag ++ after)) =
        Text.trimStart content ++ closingTag ++ after := by
      rw [List.append_assoc, Text.trimStart, List.dropWhile_append, if_neg]
      · rfl
      · rwa [List.isEmpty_iff]
    obtain ⟨inner, rest, hCut⟩ := Text.exists_cutInner hBlank closingTag after
    exact ⟨Text.trimEnd inner, by simp only [name?, hStart, hCut]⟩

/-- From a line with a layout a name is read. The first opening tag stands no later than that of
the layout, and so what follows it ends with the name of the layout and all behind it. -/
theorem exists_read?_of_fits {layout : Layout} {line : String} (h : layout.Fits line) :
    ∃ name, read? line = some name := by
  have hText := h.toList_line
  obtain ⟨before, rest, hOpening⟩ :=
    Text.exists_cutFirst layout.before.toList openingTag layout.rest
  rw [← hText] at hOpening
  obtain ⟨between, hBetween⟩ := Text.exists_between
    ((Text.eq_append_of_cutFirst hOpening).symm.trans hText)
    (Text.length_le_of_cutFirst hOpening hText)
  have hContent : between ++ layout.lead.toList ++
      (layout.name.toList ++ layout.trail.toList) ≠ [] :=
    List.append_ne_nil_of_right_ne_nil _ h.content_ne
  obtain ⟨name, hName⟩ := exists_name? hContent layout.after.toList
  have hRest : rest = between ++ layout.lead.toList ++
      (layout.name.toList ++ layout.trail.toList) ++ closingTag ++ layout.after.toList := by
    rw [hBetween, Layout.rest]
    simp only [List.append_assoc]
  refine ⟨String.ofList name, ?_⟩
  simp only [read?, hOpening, hRest, hName, Option.map_some]

/-- A name is read as the layout that counts has it. -/
theorem read?_eq_some_iff {line name : String} :
    read? line = some name ↔ ∃ layout : Layout, layout.IsPreferred line ∧ layout.name = name := by
  constructor
  · exact isPreferred_of_read?
  · rintro ⟨layout, hPreferred, rfl⟩
    obtain ⟨name, hName⟩ := exists_read?_of_fits hPreferred.toFits
    obtain ⟨other, hOther, rfl⟩ := isPreferred_of_read? hName
    rw [hName, hPreferred.eq hOther]

/-- No name is read exactly from the lines without a layout. -/
theorem read?_eq_none_iff {line : String} :
    read? line = none ↔ ¬ ∃ layout : Layout, layout.Fits line := by
  constructor
  · rintro h ⟨layout, hFits⟩
    obtain ⟨name, hName⟩ := exists_read?_of_fits hFits
    cases h.symm.trans hName
  · intro h
    cases hName : read? line with
    | none => rfl
    | some name =>
      obtain ⟨layout, hPreferred, _⟩ := isPreferred_of_read? hName
      exact absurd ⟨layout, hPreferred.toFits⟩ h

/-! ## The first element -/

/-- The first opening tag of a line, the closing tag next to it, and what stands between the two. -/
structure IsFirstElement (before content after line : String) : Prop where
  line_eq : line = before ++ "<identifier>" ++ content ++ "</identifier>" ++ after
  first : ∀ other rest : String, line = other ++ "<identifier>" ++ rest →
    before.length ≤ other.length
  next : ∀ other rest : String,
    content ++ "</identifier>" ++ after = other ++ "</identifier>" ++ rest →
    content.length ≤ other.length

theorem toList_opening (before rest : String) :
    (before ++ "<identifier>" ++ rest).toList = before.toList ++ openingTag ++ rest.toList := by
  unfold openingTag
  simp only [String.toList_append]

theorem toList_closing (content after : String) :
    (content ++ "</identifier>" ++ after).toList =
      content.toList ++ closingTag ++ after.toList := by
  unfold closingTag
  simp only [String.toList_append]

theorem toList_element (before content after : String) :
    (before ++ "<identifier>" ++ content ++ "</identifier>" ++ after).toList =
      before.toList ++ openingTag ++ (content.toList ++ closingTag ++ after.toList) := by
  unfold openingTag closingTag
  simp only [String.toList_append, List.append_assoc]

namespace IsFirstElement

variable {before content after line : String}

theorem cutFirst_opening (h : IsFirstElement before content after line) :
    Text.cutFirst openingTag line.toList =
      some (before.toList, content.toList ++ closingTag ++ after.toList) := by
  apply Text.cutFirst_eq_of_length_le
  · rw [h.line_eq, toList_element]
  · intro other rest hOther
    have hLine : line = String.ofList other ++ "<identifier>" ++ String.ofList rest := by
      rw [← String.toList_inj, toList_opening, hOther, String.toList_ofList, String.toList_ofList]
    simpa [← String.length_toList] using h.first _ _ hLine

theorem cutFirst_closing (h : IsFirstElement before content after line) :
    Text.cutFirst closingTag (content.toList ++ closingTag ++ after.toList) =
      some (content.toList, after.toList) := by
  apply Text.cutFirst_eq_of_length_le rfl
  intro other rest hOther
  have hText : content ++ "</identifier>" ++ after =
      String.ofList other ++ "</identifier>" ++ String.ofList rest := by
    rw [← String.toList_inj, toList_closing, toList_closing, hOther, String.toList_ofList,
      String.toList_ofList]
  simpa [← String.length_toList] using h.next _ _ hText

theorem of_cuts {first rest content after : List Char}
    (hOpening : Text.cutFirst openingTag line.toList = some (first, rest))
    (hClosing : Text.cutFirst closingTag rest = some (content, after)) :
    IsFirstElement (String.ofList first) (String.ofList content) (String.ofList after) line := by
  have hRest := Text.eq_append_of_cutFirst hClosing
  refine ⟨?_, ?_, ?_⟩
  · rw [← String.toList_inj, Text.eq_append_of_cutFirst hOpening, hRest, toList_element]
    simp only [String.toList_ofList]
  · intro other rest hOther
    have hLine : line.toList = other.toList ++ openingTag ++ rest.toList := by
      rw [hOther, toList_opening]
    simpa [← String.length_toList] using Text.length_le_of_cutFirst hOpening hLine
  · intro other rest hOther
    have hText := congrArg String.toList hOther
    rw [toList_closing, toList_closing, String.toList_ofList, String.toList_ofList,
      ← hRest] at hText
    simpa [← String.length_toList] using Text.length_le_of_cutFirst hClosing hText

/-- If something that is not blank stands in the first element, the layout that counts has it
trimmed as the name: the blanks before it are as many as they can be, and no closing tag stands
nearer. -/
theorem isPreferred (h : IsFirstElement before content after line)
    (hContent : ¬ content.toList.all Text.isBlank = true) :
    ∃ layout : Layout, layout.IsPreferred line ∧ layout.name = Text.trimmed content := by
  obtain ⟨lead, hLead, hSplit⟩ := Text.exists_append_trimStart content.toList
  have hNil : Text.trimStart content.toList ≠ [] := by
    intro hNil
    rw [hNil, List.append_nil] at hSplit
    exact hContent (hSplit ▸ hLead)
  have hFirst : ∀ c ∈ (Text.trimStart content.toList ++ closingTag ++ after.toList).head?,
      Text.isBlank c = false := by
    intro c hc
    apply Text.isBlank_head?_trimStart content.toList
    obtain ⟨d, inner, hCons⟩ := List.exists_cons_of_ne_nil hNil
    rwa [hCons] at hc ⊢
  have hClosing := h.cutFirst_closing
  have hInner : Text.cutInner closingTag
      (Text.trimStart content.toList ++ closingTag ++ after.toList) =
        some (Text.trimStart content.toList, after.toList) := by
    apply Text.cutInner_eq_of_length_le hNil rfl
    intro other rest _ hOther
    have hText : content.toList ++ closingTag ++ after.toList =
        lead ++ other ++ closingTag ++ rest := by
      rw [hSplit]
      simpa using hOther
    have hLe := Text.length_le_of_cutFirst hClosing hText
    have hLength := congrArg List.length hSplit
    simp only [List.length_append] at hLe hLength
    omega
  have hOpening := h.cutFirst_opening
  rw [hSplit, List.append_assoc, List.append_assoc, ← List.append_assoc _ closingTag] at hOpening
  obtain ⟨trail, hPreferred⟩ := isPreferred_of_inner hOpening hLead hFirst hInner
  exact ⟨_, hPreferred, rfl⟩

end IsFirstElement

end Header

/-! ## What a line does to the open rule -/

namespace Compiler

theorem readLine_of_header (compiler : Compiler) (label : String) (number : Nat) {line name : String}
    (h : Header.read? line = some name) (reading : Reading) :
    compiler.readLine label number line reading =
      .ok () { reading.close with opened := some (Rule.new name compiler.guards.fresh) } := by
  have hRole : LineRole.of line = .header name := by
    simp only [LineRole.of, h]
  simp only [readLine, hRole]

/-- A line that is no header leaves no rule open but the one that was open before it. -/
theorem opened_readLine_of_not_header (compiler : Compiler) (label : String) (number : Nat)
    {line : String} (h : Header.read? line = none) (reading : Reading) :
    (ending Reading.opened (compiler.readLine label number line reading)).2 = none ∨
    ∃ rule, reading.opened = some rule ∧
      (ending Reading.opened (compiler.readLine label number line reading)).2 =
        some (rule.compileLine compiler.resolver line reading.numbering).rule := by
  have hRole : LineRole.of line = .itemEnd ∨ LineRole.of line = .content := by
    simp only [LineRole.of, h]
    split
    · exact .inl rfl
    · exact .inr rfl
  rcases hRole with hRole | hRole
  · left
    simp only [readLine, hRole]
    exact reading.opened_close
  · cases hOpened : reading.opened with
    | none =>
      left
      simp only [readLine, hRole, hOpened]
      exact hOpened
    | some rule =>
      right
      refine ⟨rule, rfl, ?_⟩
      simp only [readLine, hRole, hOpened]
      cases (rule.compileLine compiler.resolver line reading.numbering).outcome <;> rfl

/-- **Which rule a header opens.** Let something that is not blank stand between the first opening
tag of a line and the closing tag next to it. Whatever stands before and after them, the line closes
and collects the rule that is open, if there is one, and opens a rule without lines, whose name is
what stands there, trimmed. If no closing tag stands behind an opening tag, the line opens no rule:
afterwards no rule is open but the one that was open before, with the line taken. -/
theorem readLine_of_element (compiler : Compiler) (label : String) (number : Nat) (line : String)
    (reading : Reading) :
    (∀ before content after : String, Header.IsFirstElement before content after line →
      ¬ content.toList.all Text.isBlank = true →
      ∃ next, compiler.readLine label number line reading = .ok () next ∧
        next.opened = some (Rule.new (Text.trimmed content) compiler.guards.fresh) ∧
        next.rules = (match reading.opened with
          | none => reading.rules
          | some rule => Reading.collect reading.rules rule) ∧
        next.numbering = reading.numbering) ∧
    ((¬ ∃ before content after : String,
        line = before ++ "<identifier>" ++ content ++ "</identifier>" ++ after) →
      (ending Reading.opened (compiler.readLine label number line reading)).2 = none ∨
      ∃ rule, reading.opened = some rule ∧
        (ending Reading.opened (compiler.readLine label number line reading)).2 =
          some (rule.compileLine compiler.resolver line reading.numbering).rule) := by
  constructor
  · intro before content after hElement hContent
    have hRead : Header.read? line = some (Text.trimmed content) :=
      Header.read?_eq_some_iff.mpr (hElement.isPreferred hContent)
    refine ⟨_, compiler.readLine_of_header label number hRead reading, rfl, ?_, ?_⟩
    · cases hOpened : reading.opened with
      | none => exact Reading.rules_close_of_none hOpened
      | some rule => exact Reading.rules_close_of_some hOpened
    · exact reading.numbering_close
  · intro hNone
    have hRead : Header.read? line = none := by
      rw [Header.read?_eq_none_iff]
      rintro ⟨layout, hFits⟩
      apply hNone
      refine ⟨layout.before, layout.lead ++ layout.name ++ layout.trail, layout.after, ?_⟩
      rw [hFits.line_eq, Header.Layout.text]
      simp only [String.append_assoc]
    exact compiler.opened_readLine_of_not_header label number hRead reading

/-- A line with more tags before, between and behind the first two, and an open rule: the name is
what stands between the nearest tags, trimmed, and the open rule is collected. -/
theorem readLine_of_element_more_tags :
    ∃ (line : String) (next : Reading),
      line = "</identifier> <identifier>\u00a0a <b>\t</identifier> c</identifier><identifier>d" ∧
      Header.IsFirstElement "</identifier> " "\u00a0a <b>\t" " c</identifier><identifier>d" line ∧
      readLine { resolver := .constant 7 } "s" 1 line
        { numbering := {}, opened := some (Rule.new "r" .none) } = .ok () next ∧
      next.opened = some (Rule.new "a <b>" (.filter [])) ∧
      next.rules.map Rule.name = ["r"] := by
  obtain ⟨line, hLine⟩ : ∃ line : String,
      line = "</identifier> <identifier>\u00a0a <b>\t</identifier> c</identifier><identifier>d" :=
    ⟨_, rfl⟩
  have hOpening : Text.cutFirst Header.openingTag line.toList = some ("</identifier> ".toList,
      "\u00a0a <b>\t</identifier> c</identifier><identifier>d".toList) := by
    subst hLine
    decide +kernel
  have hClosing : Text.cutFirst Header.closingTag
      "\u00a0a <b>\t</identifier> c</identifier><identifier>d".toList =
      some ("\u00a0a <b>\t".toList, " c</identifier><identifier>d".toList) := by
    decide +kernel
  have hElement := Header.IsFirstElement.of_cuts hOpening hClosing
  simp only [String.ofList_toList] at hElement
  have hTrimmed : Text.trimmed "\u00a0a <b>\t" = "a <b>" := by decide +kernel
  obtain ⟨next, hRun, hOpened, hRules, _⟩ := (readLine_of_element { resolver := .constant 7 } "s" 1
    line { numbering := {}, opened := some (Rule.new "r" .none) }).1 _ _ _ hElement (by decide)
  rw [hTrimmed] at hOpened
  refine ⟨line, next, hLine, hElement, hRun, hOpened, ?_⟩
  rw [hRules]
  rfl

end Compiler

end KeyRemap
