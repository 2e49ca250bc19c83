import KeyRemap.Filter
import KeyRemap.Operand.Kind
import KeyRemap.Operation

/-!
# Names of kinds, operations and filters

Operand kinds, operations and filter kinds are looked up by name in a list of all of them. Each is
found by its own name, so it is found by no other one, and no two of a list have one name.

* `find?_name_eq_some_iff`, `find?_name_eq_none_iff`: what is found by a name, for any such list.
* `eq_of_name_eq`: a name belongs to one item.
-/

namespace KeyRemap

section Lookup

variable {α : Type} {all : List α} {name : α → String}

/-- Where every item is found by its own name, an item is found by its own name only. -/
theorem find?_name_eq_some_iff
    (hAll : ∀ item, all.find? (fun other => name other == name item) = some item)
    {text : String} {item : α} :
    all.find? (fun other => name other == text) = some item ↔ name item = text := by
  constructor
  · intro h
    simpa using List.find?_some h
  · rintro rfl
    exact hAll item

theorem find?_name_eq_none_iff
    (hAll : ∀ item, all.find? (fun other => name other == name item) = some item)
    {text : String} :
    all.find? (fun other => name other == text) = none ↔ ∀ item, name item ≠ text := by
  constructor
  · intro h item hName
    cases h.symm.trans ((find?_name_eq_some_iff hAll).mpr hName)
  · intro h
    apply List.find?_eq_none.mpr
    intro item _
    simpa using h item

theorem eq_of_name_eq
    (hAll : ∀ item, all.find? (fun other => name other == name item) = some item)
    {item other : α} (h : name item = name other) : item = other := by
  have hItem := hAll item
  rw [h, hAll other] at hItem
  exact (Option.some.inj hItem).symm

end Lookup

namespace OperandKind

theorem ofName?_name (kind : OperandKind) : ofName? kind.name = some kind := by
  cases kind <;> decide

theorem ofName?_eq_some_iff {name : String} {kind : OperandKind} :
    ofName? name = some kind ↔ kind.name = name :=
  find?_name_eq_some_iff ofName?_name

end OperandKind

namespace Operation

theorem ofName?_name (operation : Operation) : ofName? operation.name = some operation := by
  cases operation <;> decide

theorem ofName?_eq_some_iff {name : String} {operation : Operation} :
    ofName? name = some operation ↔ operation.name = name :=
  find?_name_eq_some_iff ofName?_name

theorem ofName?_eq_none_iff {name : String} :
    ofName? name = none ↔ ∀ operation : Operation, operation.name ≠ name :=
  find?_name_eq_none_iff ofName?_name

theorem name_injective {operation other : Operation} (h : operation.name = other.name) :
    operation = other :=
  eq_of_name_eq ofName?_name h

end Operation

namespace FilterKind

theorem ofTag?_tag (kind : FilterKind) : ofTag? kind.tag = some kind := by
  cases kind <;> decide

theorem ofTag?_eq_some_iff {tag : String} {kind : FilterKind} :
    ofTag? tag = some kind ↔ kind.tag = tag :=
  find?_name_eq_some_iff ofTag?_tag

theorem tag_injective {kind other : FilterKind} (h : kind.tag = other.tag) : kind = other :=
  eq_of_name_eq ofTag?_tag h

end FilterKind

end KeyRemap
