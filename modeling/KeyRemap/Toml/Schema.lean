import KeyRemap.Toml.Value

/-!
# Records in a file

A record may be given as a table, with its fields by name and no others, or as an array, with its
fields in order and anything after them.
-/

namespace KeyRemap.Toml

/-- The values of the named fields; nothing if a table has other keys. -/
def Value.fields? (names : List String) : Value → Option (List (Option Value))
  | table _ entries =>
    if entries.all fun (key, _) => names.contains key then
      some (names.map fun name => entries.lookup name)
    else none
  | array _ items => some ((List.range names.length).map fun i => items[i]?)
  | _ => none

def Value.string? : Value → Option String
  | string text => some text
  | _ => none

/-- An integer of 32 bits without sign. -/
def Value.word? : Value → Option UInt32
  | integer number =>
    if 0 ≤ number ∧ number < UInt32.size then some (UInt32.ofNat number.toNat) else none
  | _ => none

/-- The items of an array, each read by the same reader. -/
def Value.items? {α : Type} (item? : Value → Option α) : Value → Option (List α)
  | array _ items => items.mapM item?
  | _ => none

/-- The keys of a table with the values read by the same reader. -/
def Value.entries? {α : Type} (item? : Value → Option α) : Value → Option (List (String × α))
  | table _ entries => entries.mapM fun (key, value) => (item? value).map fun a => (key, a)
  | _ => none

/-- A field that may be missing; if it is there, it must be readable. -/
def optionalField {α : Type} (read? : Value → Option α) : Option Value → Option (Option α)
  | none => some none
  | some value => (read? value).map some

end KeyRemap.Toml
