import KeyRemap.Text.Pieces
import Mathlib.Data.List.TakeWhile

/-!
# Blanks around the pieces of a text

Trimming takes away all blanks that are put around a text, and nothing else if the text itself
begins and ends with other characters. So texts that are joined by a separator are read back as
pieces, whatever blanks stand around them and whatever blank texts stand between them.

* `trim_pad`, `trim_eq_nil_iff`, `trim_eq_self_of_ends`: what trimming takes and what it leaves.
* `pieces_eq`: the pieces of a text are its fields that are not blank, trimmed.
* `pieces_intercalate`: joined texts are read back.
-/

namespace KeyRemap.Text

/-! ## Trimming -/

theorem trim_append_blanks (cs : List Char) {after : List Char} (h : after.all isBlank = true) :
    trim (cs ++ after) = trim cs := by
  have hAfter : ∀ c ∈ after, isBlank c = true := List.all_eq_true.mp h
  rw [trim, trim, trimStart, List.dropWhile_append]
  split
  · rename_i hCs
    rw [trimStart, List.isEmpty_iff.mp hCs, List.dropWhile_eq_nil_iff.mpr hAfter]
  · have hBack : ∀ c ∈ after.reverse, isBlank c = true :=
      fun c hc => hAfter c (List.mem_reverse.mp hc)
    rw [trimEnd, List.reverse_append, List.dropWhile_append_of_pos hBack, trimStart, trimEnd]

/-- Blanks around a text do not count. -/
theorem trim_pad {before after : List Char} (hBefore : before.all isBlank = true)
    (hAfter : after.all isBlank = true) (cs : List Char) :
    trim (before ++ cs ++ after) = trim cs := by
  rw [trim_append_blanks _ hAfter, trim, trimStart,
    List.dropWhile_append_of_pos (List.all_eq_true.mp hBefore), ← trimStart, ← trim]

/-- Nothing is left of a text exactly if it is blank. -/
theorem trim_eq_nil_iff {cs : List Char} : trim cs = [] ↔ cs.all isBlank = true := by
  rw [trim, trimEnd, List.reverse_eq_nil_iff, List.dropWhile_eq_nil_iff, List.all_eq_true]
  simp only [List.mem_reverse]
  constructor
  · intro h c hc
    rw [← List.takeWhile_append_dropWhile (p := isBlank) (l := cs)] at hc
    rcases List.mem_append.mp hc with hc | hc
    · exact List.mem_takeWhile_imp hc
    · exact h c hc
  · intro h c hc
    exact h c ((List.dropWhile_suffix isBlank).subset hc)

theorem dropWhile_eq_self_of_head? {cs : List Char} (h : ∀ c ∈ cs.head?, isBlank c = false) :
    cs.dropWhile isBlank = cs := by
  cases cs with
  | nil => rfl
  | cons c cs => exact List.dropWhile_cons_of_neg (by simp [h c rfl])

/-- A text is left as it is if neither its first nor its last character is blank. -/
theorem trim_eq_self_of_ends {cs : List Char} (hFirst : ∀ c ∈ cs.head?, isBlank c = false)
    (hLast : ∀ c ∈ cs.getLast?, isBlank c = false) : trim cs = cs := by
  have hBack : ∀ c ∈ cs.reverse.head?, isBlank c = false := by
    rwa [List.head?_reverse]
  rw [trim, trimStart, dropWhile_eq_self_of_head? hFirst, trimEnd,
    dropWhile_eq_self_of_head? hBack, List.reverse_reverse]

/-- A text with blanks, or with nothing, put before and after it. -/
def IsPadded (core text : String) : Prop :=
  ∃ before after : String, before.toList.all isBlank = true ∧ after.toList.all isBlank = true ∧
    text = before ++ core ++ after

theorem IsPadded.refl (text : String) : IsPadded text text :=
  ⟨"", "", rfl, rfl, by simp⟩

theorem IsPadded.trim_eq {core text : String} (h : IsPadded core text) :
    trim text.toList = trim core.toList := by
  obtain ⟨before, after, hBefore, hAfter, rfl⟩ := h
  rw [String.toList_append, String.toList_append, trim_pad hBefore hAfter]

theorem IsPadded.all_isBlank_iff {core text : String} (h : IsPadded core text) :
    text.toList.all isBlank = true ↔ core.toList.all isBlank = true := by
  rw [← trim_eq_nil_iff, ← trim_eq_nil_iff, h.trim_eq]

/-- Padding brings in blanks only. -/
theorem IsPadded.mem_of_not_isBlank {core text : String} (h : IsPadded core text) {c : Char}
    (hBlank : isBlank c = false) (hc : c ∈ text.toList) : c ∈ core.toList := by
  obtain ⟨before, after, hBefore, hAfter, rfl⟩ := h
  simp only [String.toList_append, List.mem_append] at hc
  rcases hc with (hc | hc) | hc
  · rw [List.all_eq_true.mp hBefore c hc] at hBlank
    cases hBlank
  · exact hc
  · rw [List.all_eq_true.mp hAfter c hc] at hBlank
    cases hBlank

/-! ## Pieces -/

/-- The pieces of a text are its fields that are not blank, trimmed. -/
theorem pieces_eq (sep : Char) (cs : List Char) :
    pieces sep cs = ((cs.splitOn sep).filter fun field => !field.all isBlank).map
      fun field => String.ofList (trim field) := by
  have hBlank : ∀ field : List Char, (trim field).isEmpty = field.all isBlank := by
    intro field
    rw [Bool.eq_iff_iff, List.isEmpty_iff, trim_eq_nil_iff]
  rw [pieces, List.filter_map, List.map_map]
  simp only [Function.comp_def, hBlank]

/-- Texts without separator that are joined by it are read back, trimmed and without those that are
blank. -/
theorem pieces_intercalate {sep : Char} {fields : List (List Char)}
    (h : ∀ field ∈ fields, sep ∉ field) :
    pieces sep ([sep].intercalate fields) = (fields.filter fun field => !field.all isBlank).map
      fun field => String.ofList (trim field) := by
  rw [pieces_eq]
  cases fields with
  | nil => rfl
  | cons field fields => rw [List.splitOn_intercalate sep h (List.cons_ne_nil _ _)]

theorem toList_intercalate {sep : String} {c : Char} (h : sep.toList = [c])
    (fields : List String) :
    (sep.intercalate fields).toList = [c].intercalate (fields.map String.toList) := by
  rw [String.toList_intercalate, h]

/-- Texts without commas that are joined by them are read back. -/
theorem fields_intercalate {texts : List String} (hNil : texts ≠ [])
    (h : ∀ text ∈ texts, ',' ∉ text.toList) : fields ',' (",".intercalate texts) = texts := by
  have hComma : ",".toList = [','] := rfl
  rw [fields, toList_intercalate hComma,
    List.splitOn_intercalate ',' (List.forall_mem_map.mpr h) (by simpa using hNil)]
  simp

/-- A character of joined texts is the separator or stands in one of them. -/
theorem mem_of_mem_intercalate {sep c : Char} {fields : List (List Char)}
    (h : c ∈ [sep].intercalate fields) : c = sep ∨ ∃ field ∈ fields, c ∈ field := by
  induction fields with
  | nil => cases h
  | cons field fields ih =>
    cases fields with
    | nil =>
      rw [List.intercalate_singleton] at h
      exact .inr ⟨field, List.mem_cons_self, h⟩
    | cons next fields =>
      rw [List.intercalate_cons_cons, List.append_assoc] at h
      rcases List.mem_append.mp h with h | h
      · exact .inr ⟨field, List.mem_cons_self, h⟩
      · rcases List.mem_append.mp h with h | h
        · exact .inl (List.mem_singleton.mp h)
        · rcases ih h with h | ⟨other, hOther, h⟩
          · exact .inl h
          · exact .inr ⟨other, List.mem_cons_of_mem _ hOther, h⟩

end KeyRemap.Text
