import KeyRemap.Fragments
import KeyRemap.Proofs.Cuts
import KeyRemap.Proofs.Names
import KeyRemap.Proofs.Numerals
import KeyRemap.Proofs.Padding
import Mathlib.Data.List.Forall2
import Mathlib.Data.List.Nodup
import Std.Data.String.ToNat

/-!
# Reading setup text back

The run time knows of the tables only what the text of the setup hook says. Tables of any length
follow one another in it, with numbers of any length, and still no two lists of tables have one
text, but for what a table does not show: the single codes of its groups. The elements of a table
hold neither commas nor braces, so the closing brace ends them and commas part them; the digits of a
slot end at its bracket; and all else that stands in the text of a table is always the same.

* `OperandTable.elements_eq_iff`: the elements tell the operation, and kind and value of each group.
* `Statement.eq_of_text_append`: the text of a table can be told from what follows it.
* `Fragments.text_ofTables_eq_iff`: which lists of tables have one text.
-/

namespace KeyRemap

/-! ## Constants and numbers -/

namespace Operation

theorem mem_all (operation : Operation) : operation ∈ all := by
  cases operation <;> decide

/-- No two operations have one marker: their names differ by more than the case of letters. -/
theorem marker_injective {operation other : Operation} (h : operation.marker = other.marker) :
    operation = other := by
  have hNodup : (all.map fun operation => operation.name.toList.map Char.toUpper).Nodup := by
    decide +kernel
  have hNames : operation.name.toList.map Char.toUpper = other.name.toList.map Char.toUpper := by
    have hList := congrArg String.toList ((String.append_right_inj _).mp h)
    rwa [String.toList_ofList, String.toList_ofList] at hList
  exact List.inj_on_of_nodup_map hNodup operation.mem_all other.mem_all hNames

end Operation

namespace OperandKind

theorem find?_datatype (kind : OperandKind) :
    all.find? (fun other => other.datatype == kind.datatype) = some kind := by
  cases kind <;> decide +kernel

theorem datatype_injective {kind other : OperandKind} (h : kind.datatype = other.datatype) :
    kind = other :=
  eq_of_name_eq find?_datatype h

end OperandKind

theorem constantElement_injective {first second : String}
    (h : constantElement first = constantElement second) : first = second := by
  unfold constantElement at h
  exact (String.append_right_inj _).mp ((String.append_left_inj _).mp h)

/-- The marks around the elements of an array and between them. -/
def isArrayMark (c : Char) : Bool :=
  c == ',' || c == '\x7b' || c == '\x7d'

/-- Whether a text holds none of these marks. -/
def isUnmarked (text : String) : Bool :=
  text.toList.all fun c => !isArrayMark c

theorem isUnmarked_ofList {cs : List Char} (h : cs.all (fun c => !isArrayMark c) = true) :
    isUnmarked (String.ofList cs) = true := by
  rwa [isUnmarked, String.toList_ofList]

theorem isUnmarked_append {first second : String} (hFirst : isUnmarked first = true)
    (hSecond : isUnmarked second = true) : isUnmarked (first ++ second) = true := by
  rw [isUnmarked, String.toList_append, List.all_append, Bool.and_eq_true]
  exact ⟨hFirst, hSecond⟩

theorem isArrayMark_of_mem {text : String} (h : isUnmarked text = true) {c : Char}
    (hc : c ∈ text.toList) : isArrayMark c = false := by
  simpa using List.all_eq_true.mp h c hc

theorem isUnmarked_repr (n : Nat) : isUnmarked n.repr = true := by
  rw [isUnmarked, List.all_eq_true]
  intro c hc
  have hDigit := isDigit_of_mem_repr hc
  by_contra hMark
  simp only [isArrayMark, Bool.not_eq_true, Bool.not_eq_false', Bool.or_eq_true,
    beq_iff_eq] at hMark
  rcases hMark with (rfl | rfl) | rfl <;> cases hDigit

theorem isUnmarked_constantElement {constant : String} (h : isUnmarked constant = true) :
    isUnmarked (constantElement constant) = true := by
  have hCast : isUnmarked "static_cast<unsigned int>(" = true := isUnmarked_ofList (by decide)
  have hEnd : isUnmarked ")" = true := isUnmarked_ofList (by decide)
  exact isUnmarked_append (isUnmarked_append hCast h) hEnd

theorem Operation.isUnmarked_marker (operation : Operation) :
    isUnmarked operation.marker = true := by
  have hStem : isUnmarked "BRIDGE_REMAPTYPE_" = true := isUnmarked_ofList (by decide)
  have hName : (operation.name.toList.map Char.toUpper).all (fun c => !isArrayMark c) = true := by
    cases operation <;> unfold Operation.name <;> rw [String.toList_ofList] <;> decide
  exact isUnmarked_append hStem (isUnmarked_ofList hName)

theorem OperandKind.isUnmarked_datatype (kind : OperandKind) :
    isUnmarked kind.datatype = true := by
  cases kind <;> exact isUnmarked_ofList (by decide)

/-! ## Elements -/

namespace OperandTable

/-- The elements of a table hold none of the marks around them. -/
theorem isUnmarked_of_mem_elements {table : OperandTable} {element : String}
    (h : element ∈ table.elements) : isUnmarked element = true := by
  simp only [elements, List.mem_cons, List.mem_flatMap, List.not_mem_nil, or_false] at h
  rcases h with rfl | ⟨group, _, rfl | rfl⟩
  · exact isUnmarked_constantElement table.operation.isUnmarked_marker
  · exact isUnmarked_constantElement group.kind.isUnmarked_datatype
  · exact isUnmarked_repr _

/-- What a table shows of its groups: kind and value, but not the single codes. -/
def shownGroups (table : OperandTable) : List (OperandKind × UInt32) :=
  table.groups.map fun group => (group.kind, group.value)

theorem elements_eq (table : OperandTable) :
    table.elements = constantElement table.operation.marker ::
      table.shownGroups.flatMap fun shown => [constantElement shown.1.datatype,
        shown.2.toNat.repr] := by
  rw [elements, shownGroups, List.flatMap_map]

theorem eq_of_groupElements_eq {first second : List (OperandKind × UInt32)}
    (h : (first.flatMap fun shown => [constantElement shown.1.datatype, shown.2.toNat.repr]) =
      second.flatMap fun shown => [constantElement shown.1.datatype, shown.2.toNat.repr]) :
    first = second := by
  induction first generalizing second with
  | nil =>
    cases second with
    | nil => rfl
    | cons _ _ => cases h
  | cons shown first ih =>
    cases second with
    | nil => cases h
    | cons other second =>
      simp only [List.flatMap_cons, List.cons_append, List.nil_append, List.cons.injEq] at h
      obtain ⟨hKind, hValue, hRest⟩ := h
      have hKind := OperandKind.datatype_injective (constantElement_injective hKind)
      have hValue := UInt32.toNat_inj.mp (Nat.repr_injective hValue)
      rw [ih hRest, Prod.ext hKind hValue]

/-- Two tables have the same elements exactly if they show the same. -/
theorem elements_eq_iff {first second : OperandTable} :
    first.elements = second.elements ↔
      first.operation = second.operation ∧ first.shownGroups = second.shownGroups := by
  rw [elements_eq, elements_eq, List.cons.injEq]
  constructor
  · rintro ⟨hMarker, hGroups⟩
    exact ⟨Operation.marker_injective (constantElement_injective hMarker),
      eq_of_groupElements_eq hGroups⟩
  · rintro ⟨hOperation, hGroups⟩
    rw [hOperation, hGroups]
    exact ⟨rfl, rfl⟩

/-- The elements joined by commas, as they stand between the braces. -/
def elementText (table : OperandTable) : List Char :=
  [','].intercalate (table.elements.map String.toList)

theorem elementText_injective {first second : OperandTable}
    (h : first.elementText = second.elementText) : first.elements = second.elements := by
  have hSplit : ∀ table : OperandTable,
      table.elementText.splitOn ',' = table.elements.map String.toList := by
    intro table
    apply List.splitOn_intercalate
    · intro field hField hComma
      obtain ⟨element, hElement, rfl⟩ := List.mem_map.mp hField
      cases isArrayMark_of_mem (isUnmarked_of_mem_elements hElement) hComma
    · simp [elements]
  have hMap := congrArg (List.splitOn ',') h
  rw [hSplit, hSplit] at hMap
  exact List.map_injective_iff.mpr (fun _ _ => String.toList_inj.mp) hMap

theorem not_mem_elementText {table : OperandTable} : '\x7d' ∉ table.elementText := by
  intro h
  rcases Text.mem_of_mem_intercalate h with h | ⟨field, hField, h⟩
  · cases h
  · obtain ⟨element, hElement, rfl⟩ := List.mem_map.mp hField
    cases isArrayMark_of_mem (isUnmarked_of_mem_elements hElement) h

end OperandTable

/-! ## Statements -/

namespace Statement

/-- What stands before, between and behind the elements and the slot of a table is the same in all
setup statements. -/
theorem exists_setup_frame :
    ∃ opening middle ending : List Char, ∀ (slot : Nat) (table : OperandTable),
      (text (.setUpTable slot table)).toList =
        opening ++ (table.elementText ++ [' '] ++ '\x7d' ::
          (middle ++ (slot.repr.toList ++ ']' :: ending))) := by
  refine ⟨"\x7b\n  const unsigned int vec[] = \x7b ".toList, ";\n  ".toList ++ "value_[".toList,
    ".initialize_remap(vec, sizeof(vec) / sizeof(vec[0]));\n\x7d\n".toList, ?_⟩
  intro slot table
  have hComma : ",".toList = [','] := rfl
  have hBrace : " \x7d;\n  ".toList = [' '] ++ '\x7d' :: ";\n  ".toList := rfl
  have hBracket : "]".toList = [']'] := rfl
  simp only [text_setUpTable, slotText, String.toList_append, OperandTable.elementText,
    Text.toList_intercalate hComma, hBrace, hBracket, List.append_assoc, List.cons_append,
    List.nil_append]

/-- The text of a setup statement can be told from what follows it, and tells slot and elements. -/
theorem eq_of_text_append {slot slot' : Nat} {table table' : OperandTable} {rest rest' : List Char}
    (h : (text (.setUpTable slot table)).toList ++ rest =
      (text (.setUpTable slot' table')).toList ++ rest') :
    slot = slot' ∧ table.elements = table'.elements ∧ rest = rest' := by
  obtain ⟨opening, middle, ending, hFrame⟩ := exists_setup_frame
  have hBrace : ∀ table : OperandTable, '\x7d' ∉ table.elementText ++ [' '] := by
    intro table hMem
    rcases List.mem_append.mp hMem with hMem | hMem
    · exact OperandTable.not_mem_elementText hMem
    · cases List.mem_singleton.mp hMem
  have hBracket : ∀ slot : Nat, ']' ∉ slot.repr.toList := by
    intro slot hMem
    cases isDigit_of_mem_repr hMem
  rw [hFrame, hFrame] at h
  -- the first closing brace ends the elements, and the first bracket behind it the slot
  simp only [List.append_assoc _ _ rest, List.append_assoc _ _ rest', List.append_cancel_left_eq,
    List.cons_append] at h
  obtain ⟨hElements, h⟩ := Text.eq_of_not_mem (hBrace table) (hBrace table') h
  obtain ⟨hSlot, h⟩ := Text.eq_of_not_mem (hBracket slot) (hBracket slot')
    (List.append_cancel_left h)
  exact ⟨Nat.repr_injective (String.toList_inj.mp hSlot),
    OperandTable.elementText_injective (List.append_cancel_right hElements),
    List.append_cancel_left h⟩

theorem text_setUpTable_ne_empty (slot : Nat) (table : OperandTable) :
    text (.setUpTable slot table) ≠ "" := by
  rw [text_setUpTable]
  simp only [ne_eq, String.append_eq_empty_iff, not_and]
  intro h
  exact absurd h.1.1.1 (by decide)

end Statement

/-! ## Lists of tables -/

namespace Fragments

/-- Fragments that set tables up in their slots, one after the other, and do nothing else. -/
def ofTables (tables : List (Nat × OperandTable)) : Fragments :=
  empty.pushAll (tables.map fun (slot, table) => (.setup, .setUpTable slot table))

theorem text_ofTables (tables : List (Nat × OperandTable)) :
    (ofTables tables).text .setup =
      Statement.textAll (tables.map fun (slot, table) => .setUpTable slot table) := by
  have hPushed : ((tables.map fun (slot, table) =>
      (Hook.setup, Statement.setUpTable slot table)).filter fun pushed => pushed.1 = .setup).map
        Prod.snd = tables.map fun (slot, table) => .setUpTable slot table := by
    rw [List.filter_eq_self.mpr, List.map_map]
    · rfl
    · intro pushed hPushed
      obtain ⟨table, _, rfl⟩ := List.mem_map.mp hPushed
      rfl
  rw [text, ofTables, get_pushAll, get_empty, hPushed, List.nil_append]

theorem text_ofTables_cons (slot : Nat) (table : OperandTable)
    (tables : List (Nat × OperandTable)) :
    (ofTables ((slot, table) :: tables)).text .setup =
      Statement.text (.setUpTable slot table) ++ (ofTables tables).text .setup := by
  rw [text_ofTables, text_ofTables, List.map_cons, Statement.textAll_cons]

theorem text_ofTables_nil : (ofTables []).text .setup = "" :=
  rfl

/-- **Setup text can be read back.** Two lists of tables in slots have one setup text exactly if they
are equally long and, position by position, have the same slot, the same operation and the same
kinds and values of groups. -/
theorem text_ofTables_eq_iff (first second : List (Nat × OperandTable)) :
    (ofTables first).text .setup = (ofTables second).text .setup ↔
      List.Forall₂
        (fun (slot, table) (slot', table') =>
          slot = slot' ∧ table.operation = table'.operation ∧
          (table.groups.map fun group => (group.kind, group.value)) =
            table'.groups.map fun group => (group.kind, group.value))
        first second := by
  constructor
  · intro h
    induction first generalizing second with
    | nil =>
      cases second with
      | nil => exact .nil
      | cons entry second =>
        obtain ⟨slot, table⟩ := entry
        rw [text_ofTables_nil, text_ofTables_cons] at h
        exact absurd (String.append_eq_empty_iff.mp h.symm).1
          (Statement.text_setUpTable_ne_empty slot table)
    | cons entry first ih =>
      obtain ⟨slot, table⟩ := entry
      cases second with
      | nil =>
        rw [text_ofTables_nil, text_ofTables_cons] at h
        exact absurd (String.append_eq_empty_iff.mp h).1
          (Statement.text_setUpTable_ne_empty slot table)
      | cons other second =>
        obtain ⟨slot', table'⟩ := other
        rw [text_ofTables_cons, text_ofTables_cons, ← String.toList_inj, String.toList_append,
          String.toList_append] at h
        obtain ⟨hSlot, hElements, hRest⟩ := Statement.eq_of_text_append h
        exact .cons ⟨hSlot, OperandTable.elements_eq_iff.mp hElements⟩
          (ih second (String.toList_inj.mp hRest))
  · intro h
    induction h with
    | nil => rfl
    | @cons entry other first second hEntry _ ih =>
      obtain ⟨slot, table⟩ := entry
      obtain ⟨slot', table'⟩ := other
      obtain ⟨hSlot, hTable⟩ := hEntry
      have hElements : table.elements = table'.elements := OperandTable.elements_eq_iff.mpr hTable
      rw [text_ofTables_cons, text_ofTables_cons, ih, Statement.text_setUpTable,
        Statement.text_setUpTable, hElements, hSlot]

end Fragments

end KeyRemap
