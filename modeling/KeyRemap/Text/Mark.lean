import KeyRemap.Text.Blank

/-!
# Marks in a text

A mark is a fixed stretch of characters, such as a tag. The line grammars of this library cut a text
at the first or at the last occurrence of a mark. What a cut gives, put together again with the
mark, is the text that was cut.

* `cutFirst_cons`: the first occurrence is at the head of the text or in its tail.
* `eq_append_of_cutFirst`, `eq_append_of_cutLast`: nothing is lost by cutting.
* `cutFirst_eq_none_iff`: a cut fails exactly where the mark does not occur.
-/

namespace KeyRemap.Text

/-- What follows a given beginning. -/
def after? : List Char → List Char → Option (List Char)
  | [], cs => some cs
  | _ :: _, [] => none
  | m :: mark, c :: cs => if m = c then after? mark cs else none

/-- The cut at the first occurrence of a mark in a text of which some characters, held last first,
have been passed already. -/
def cutFirstFrom (mark passed cs : List Char) : Option (List Char × List Char) :=
  match after? mark cs, cs with
  | some rest, _ => some (passed.reverse, rest)
  | none, [] => none
  | none, c :: cs => cutFirstFrom mark (c :: passed) cs

/-- What stands before and after the first occurrence of a mark. -/
def cutFirst (mark cs : List Char) : Option (List Char × List Char) :=
  cutFirstFrom mark [] cs

/-- What stands before and after the first occurrence of a mark that has something before it. -/
def cutInner (mark : List Char) : List Char → Option (List Char × List Char)
  | [] => none
  | c :: cs => (cutFirst mark cs).map fun (before, rest) => (c :: before, rest)

/-- What stands before and after the last occurrence of a mark: the first one, read backwards. -/
def cutLast (mark cs : List Char) : Option (List Char × List Char) :=
  (cutFirst mark.reverse cs.reverse).map fun (rest, before) => (before.reverse, rest.reverse)

theorem after?_eq_some_iff {mark cs rest : List Char} :
    after? mark cs = some rest ↔ mark ++ rest = cs := by
  induction mark generalizing cs with
  | nil => simp [after?, eq_comm]
  | cons m mark ih =>
    cases cs with
    | nil => simp [after?]
    | cons c cs => by_cases hm : m = c <;> simp [after?, hm, ih]

theorem after?_eq_none_iff {mark cs : List Char} : after? mark cs = none ↔ ¬ mark <+: cs := by
  constructor
  · rintro h ⟨rest, hrest⟩
    rw [after?_eq_some_iff.2 hrest] at h
    cases h
  · intro h
    cases ha : after? mark cs with
    | none => rfl
    | some rest => exact absurd ⟨rest, after?_eq_some_iff.1 ha⟩ h

theorem cutFirstFrom_eq (mark passed cs : List Char) :
    cutFirstFrom mark passed cs =
      (cutFirst mark cs).map fun (before, rest) => (passed.reverse ++ before, rest) := by
  induction cs generalizing passed with
  | nil => cases h : after? mark [] <;> simp [cutFirst, cutFirstFrom, h]
  | cons c cs ih =>
    cases h : after? mark (c :: cs) with
    | some rest => simp [cutFirst, cutFirstFrom, h]
    | none =>
      simp only [cutFirst, cutFirstFrom, h]
      rw [ih (c :: passed), ih [c]]
      cases cutFirst mark cs <;> simp

theorem cutFirst_nil (mark : List Char) :
    cutFirst mark [] = (after? mark []).map fun rest => ([], rest) := by
  cases h : after? mark [] <;> simp [cutFirst, cutFirstFrom, h]

/-- The first occurrence is at the head of the text, or else in its tail. -/
theorem cutFirst_cons (mark : List Char) (c : Char) (cs : List Char) :
    cutFirst mark (c :: cs) =
      match after? mark (c :: cs) with
      | some rest => some ([], rest)
      | none => cutInner mark (c :: cs) := by
  cases h : after? mark (c :: cs) with
  | some rest => simp [cutFirst, cutFirstFrom, h]
  | none =>
    simp only [cutFirst, cutFirstFrom, h, cutInner]
    rw [cutFirstFrom_eq]
    rfl

/-- Cutting at the first occurrence loses nothing. -/
theorem eq_append_of_cutFirst {mark cs before rest : List Char}
    (h : cutFirst mark cs = some (before, rest)) : cs = before ++ mark ++ rest := by
  induction cs generalizing before with
  | nil =>
    rw [cutFirst_nil] at h
    obtain ⟨_, ha, heq⟩ := Option.map_eq_some_iff.1 h
    cases heq
    simpa using (after?_eq_some_iff.1 ha).symm
  | cons c cs ih =>
    rw [cutFirst_cons] at h
    cases ha : after? mark (c :: cs) with
    | some after =>
      rw [ha] at h
      cases h
      simpa using (after?_eq_some_iff.1 ha).symm
    | none =>
      rw [ha] at h
      obtain ⟨⟨first, after⟩, hcut, heq⟩ := Option.map_eq_some_iff.1 h
      cases heq
      simp [ih hcut]

/-- Cutting at the last occurrence loses nothing. -/
theorem eq_append_of_cutLast {mark cs before rest : List Char}
    (h : cutLast mark cs = some (before, rest)) : cs = before ++ mark ++ rest := by
  obtain ⟨⟨after, first⟩, hcut, heq⟩ := Option.map_eq_some_iff.1 h
  cases heq
  simpa using congrArg List.reverse (eq_append_of_cutFirst hcut)

/-- There is no cut exactly where the mark does not occur. -/
theorem cutFirst_eq_none_iff {mark cs : List Char} : cutFirst mark cs = none ↔ ¬ mark <:+: cs := by
  induction cs with
  | nil =>
    rw [cutFirst_nil, Option.map_eq_none_iff, after?_eq_none_iff]
    simp
  | cons c cs ih =>
    rw [cutFirst_cons, List.infix_cons_iff, not_or, ← after?_eq_none_iff, ← ih]
    cases after? mark (c :: cs) <;> simp [cutInner]

end KeyRemap.Text
