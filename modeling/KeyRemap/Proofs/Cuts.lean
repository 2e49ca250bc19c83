import KeyRemap.Text.Mark

/-!
# The first and the last cut

A mark can occur in a text more than once. The first cut leaves the least before the mark and the
last cut the most, and there is a cut wherever the mark occurs at all. What follows a later
occurrence is the end of what follows an earlier one; so a text that goes on as it should behind
some occurrence does so behind every earlier one.

* `length_le_of_cutFirst`, `length_le_of_cutInner`, `length_le_of_cutLast`: which occurrence is cut.
* `exists_cutFirst`, `exists_cutInner`, `exists_cutLast`: an occurrence is cut.
* `cutFirst_eq_of_length_le`, `cutInner_eq_of_length_le`: the occurrence with the least before it is
  the one that is cut.
* `exists_between`: what follows an occurrence ends with what follows a later one.
-/

namespace KeyRemap.Text

/-! ## Two occurrences of a mark -/

/-- What follows an occurrence of a mark ends with what follows a later one. -/
theorem exists_between {mark before rest before' rest' : List Char}
    (h : before ++ mark ++ rest = before' ++ mark ++ rest')
    (hLe : before.length ≤ before'.length) : ∃ between, rest = between ++ rest' := by
  rcases List.append_eq_append_iff.mp h with ⟨between, _, hRest⟩ | ⟨between, hFirst, hRest⟩
  · exact ⟨between, hRest⟩
  · have hLength := congrArg List.length hFirst
    simp only [List.length_append] at hLength
    obtain rfl : between = [] := List.length_eq_zero_iff.mp (by omega)
    exact ⟨[], hRest.symm⟩

/-- Two occurrences of a mark are the same if as much stands before them. -/
theorem eq_of_length_eq {mark before rest before' rest' : List Char}
    (h : before ++ mark ++ rest = before' ++ mark ++ rest')
    (hLength : before.length = before'.length) : before = before' ∧ rest = rest' := by
  obtain ⟨hBefore, hRest⟩ := List.append_inj h (by simp [hLength])
  exact ⟨List.append_cancel_right hBefore, hRest⟩

/-- Two occurrences of a character are the same if none comes before them. -/
theorem eq_of_not_mem {c : Char} {before rest before' rest' : List Char} (hBefore : c ∉ before)
    (hBefore' : c ∉ before') (h : before ++ c :: rest = before' ++ c :: rest') :
    before = before' ∧ rest = rest' := by
  have hTake : ∀ {skipped : List Char} (rest : List Char), c ∉ skipped →
      (skipped ++ c :: rest).takeWhile (· != c) = skipped := by
    intro skipped rest hSkipped
    rw [List.takeWhile_append_of_pos, List.takeWhile_cons_of_neg (by simp), List.append_nil]
    intro d hd
    exact bne_iff_ne.mpr fun hEq => hSkipped (hEq ▸ hd)
  obtain rfl : before = before' := by
    rw [← hTake rest hBefore, h, hTake rest' hBefore']
  exact ⟨rfl, (List.cons.inj (List.append_cancel_left h)).2⟩

/-! ## The first occurrence -/

/-- The first cut leaves the least before the mark. -/
theorem length_le_of_cutFirst {mark cs before rest : List Char}
    (h : cutFirst mark cs = some (before, rest)) {other after : List Char}
    (hOther : cs = other ++ mark ++ after) : before.length ≤ other.length := by
  induction other generalizing cs before with
  | nil =>
    have hAfter : after? mark cs = some after := after?_eq_some_iff.2 hOther.symm
    cases cs with
    | nil =>
      rw [cutFirst_nil, hAfter] at h
      cases h
      exact Nat.zero_le _
    | cons c cs =>
      rw [cutFirst_cons, hAfter] at h
      cases h
      exact Nat.zero_le _
  | cons c other ih =>
    subst hOther
    rw [List.cons_append, List.cons_append, cutFirst_cons] at h
    split at h
    · cases h
      exact Nat.zero_le _
    · obtain ⟨⟨first, tail⟩, hCut, hEq⟩ := Option.map_eq_some_iff.1 h
      cases hEq
      exact Nat.succ_le_succ (ih hCut rfl)

theorem exists_cutFirst (before mark rest : List Char) :
    ∃ first tail, cutFirst mark (before ++ mark ++ rest) = some (first, tail) := by
  cases hCut : cutFirst mark (before ++ mark ++ rest) with
  | none => exact absurd ⟨before, rest, rfl⟩ (cutFirst_eq_none_iff.1 hCut)
  | some cut => exact ⟨cut.1, cut.2, rfl⟩

/-- An occurrence is cut if none has less before it. -/
theorem cutFirst_eq_of_length_le {mark cs before rest : List Char}
    (hText : cs = before ++ mark ++ rest)
    (hLe : ∀ other after, cs = other ++ mark ++ after → before.length ≤ other.length) :
    cutFirst mark cs = some (before, rest) := by
  obtain ⟨first, tail, hCut⟩ := exists_cutFirst before mark rest
  rw [← hText] at hCut
  have hFirst := eq_append_of_cutFirst hCut
  have hLength : first.length = before.length :=
    Nat.le_antisymm (length_le_of_cutFirst hCut hText) (hLe first tail hFirst)
  obtain ⟨rfl, rfl⟩ := eq_of_length_eq (hFirst.symm.trans hText) hLength
  exact hCut

/-- A stretch without the first character of a mark is passed over. -/
theorem cutFirst_append_of_not_mem {m : Char} {mark skipped : List Char} (h : m ∉ skipped)
    (cs : List Char) :
    cutFirst (m :: mark) (skipped ++ cs) =
      (cutFirst (m :: mark) cs).map fun (before, rest) => (skipped ++ before, rest) := by
  induction skipped with
  | nil => cases hCut : cutFirst (m :: mark) cs <;> simp [hCut]
  | cons c skipped ih =>
    obtain ⟨hFirst, hRest⟩ := not_or.mp (mt List.mem_cons.mpr h)
    have hAfter : after? (m :: mark) (c :: (skipped ++ cs)) = none := by
      simp only [after?, if_neg hFirst]
    rw [List.cons_append, cutFirst_cons, hAfter, cutInner, ih hRest, Option.map_map]
    rfl

/-! ## The first occurrence with something before it -/

/-- Cutting at an inner occurrence loses nothing and leaves something before the mark. -/
theorem eq_append_of_cutInner {mark cs before rest : List Char}
    (h : cutInner mark cs = some (before, rest)) :
    before ≠ [] ∧ cs = before ++ mark ++ rest := by
  cases cs with
  | nil => cases h
  | cons c cs =>
    obtain ⟨⟨first, tail⟩, hCut, hEq⟩ := Option.map_eq_some_iff.1 h
    cases hEq
    exact ⟨List.cons_ne_nil _ _, congrArg (c :: ·) (eq_append_of_cutFirst hCut)⟩

/-- An inner cut leaves the least before the mark that is not nothing. -/
theorem length_le_of_cutInner {mark cs before rest : List Char}
    (h : cutInner mark cs = some (before, rest)) {other after : List Char} (hNil : other ≠ [])
    (hOther : cs = other ++ mark ++ after) : before.length ≤ other.length := by
  obtain ⟨c, other, rfl⟩ := List.exists_cons_of_ne_nil hNil
  subst hOther
  obtain ⟨⟨first, tail⟩, hCut, hEq⟩ := Option.map_eq_some_iff.1 h
  cases hEq
  exact Nat.succ_le_succ (length_le_of_cutFirst hCut rfl)

theorem exists_cutInner {before : List Char} (hNil : before ≠ []) (mark rest : List Char) :
    ∃ first tail, cutInner mark (before ++ mark ++ rest) = some (first, tail) := by
  obtain ⟨c, before, rfl⟩ := List.exists_cons_of_ne_nil hNil
  obtain ⟨first, tail, hCut⟩ := exists_cutFirst before mark rest
  refine ⟨c :: first, tail, ?_⟩
  rw [List.cons_append, List.cons_append, cutInner, hCut]
  rfl

/-- An inner occurrence is cut if no other one has less before it. -/
theorem cutInner_eq_of_length_le {mark cs before rest : List Char} (hNil : before ≠ [])
    (hText : cs = before ++ mark ++ rest)
    (hLe : ∀ other after, other ≠ [] → cs = other ++ mark ++ after →
      before.length ≤ other.length) :
    cutInner mark cs = some (before, rest) := by
  obtain ⟨first, tail, hCut⟩ := exists_cutInner hNil mark rest
  rw [← hText] at hCut
  obtain ⟨hFirstNil, hFirst⟩ := eq_append_of_cutInner hCut
  have hLength : first.length = before.length :=
    Nat.le_antisymm (length_le_of_cutInner hCut hNil hText) (hLe first tail hFirstNil hFirst)
  obtain ⟨rfl, rfl⟩ := eq_of_length_eq (hFirst.symm.trans hText) hLength
  exact hCut

/-! ## The last occurrence -/

/-- The last cut leaves the most before the mark: read backwards, the least behind it. -/
theorem length_le_of_cutLast {mark cs before rest : List Char}
    (h : cutLast mark cs = some (before, rest)) {other after : List Char}
    (hOther : cs = other ++ mark ++ after) : other.length ≤ before.length := by
  have hCs := congrArg List.length (eq_append_of_cutLast h)
  obtain ⟨⟨behind, first⟩, hCut, hEq⟩ := Option.map_eq_some_iff.1 h
  cases hEq
  have hBack : cs.reverse = after.reverse ++ mark.reverse ++ other.reverse := by
    simp [hOther]
  have hLe := length_le_of_cutFirst hCut hBack
  have hOtherLength := congrArg List.length hOther
  simp only [List.length_append, List.length_reverse] at hCs hLe hOtherLength ⊢
  omega

theorem exists_cutLast (before mark rest : List Char) :
    ∃ first tail, cutLast mark (before ++ mark ++ rest) = some (first, tail) := by
  obtain ⟨first, tail, hCut⟩ := exists_cutFirst rest.reverse mark.reverse before.reverse
  have hBack : (before ++ mark ++ rest).reverse =
      rest.reverse ++ mark.reverse ++ before.reverse := by
    simp
  exact ⟨tail.reverse, first.reverse, by rw [cutLast, hBack, hCut]; rfl⟩

/-- An occurrence is the last if the mark's first character does not come again behind it. -/
theorem cutLast_eq_of_not_mem {m : Char} {mark : List Char} (hMark : m ∉ mark)
    (before : List Char) {rest : List Char} (hRest : m ∉ rest) :
    cutLast (m :: mark) (before ++ m :: mark ++ rest) = some (before, rest) := by
  obtain ⟨first, tail, hCut⟩ := exists_cutLast before (m :: mark) rest
  have hText := eq_append_of_cutLast hCut
  have hLe := length_le_of_cutLast hCut rfl
  -- were there more before the last cut, the character would stand there once more than it does
  have hLength : before.length = first.length := by
    refine Nat.le_antisymm hLe (Nat.le_of_not_lt fun hLt => ?_)
    have hMarked : before ++ [m] <+: before ++ m :: mark ++ rest := ⟨mark ++ rest, by simp⟩
    have hFirst : first <+: before ++ m :: mark ++ rest :=
      ⟨m :: mark ++ tail, by rw [hText, List.append_assoc]⟩
    have hStart : before ++ [m] <+: first := by
      apply List.prefix_of_prefix_length_le hMarked hFirst
      simp only [List.length_append, List.length_singleton]
      omega
    have hCount := hStart.sublist.count_le m
    have hAll := congrArg (List.count m) hText
    simp only [List.count_append, List.count_cons_self, List.count_eq_zero_of_not_mem hMark,
      List.count_eq_zero_of_not_mem hRest] at hCount hAll
    omega
  obtain ⟨rfl, rfl⟩ := eq_of_length_eq hText hLength
  exact hCut

end KeyRemap.Text
