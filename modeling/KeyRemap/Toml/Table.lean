import KeyRemap.Toml.Value

/-!
# Building tables

A document is a sequence of blocks: the assignments before any header, then a header and its
assignments, and so on. A header may name a table only once, and a dotted key may enter only tables
that dotted keys or longer headers made.
-/

namespace KeyRemap.Toml

/-- A change of the table at the end of a path. Tables that are missing on the way are made; in a
list of tables the way leads through the last one. -/
def descend (dotted : Bool) (change : Origin → Entries → Option Entries) :
    List String → Origin → Entries → Option Entries
  | [], origin, entries => change origin entries
  | key :: path, _, entries =>
    match entries.lookup key with
    | none =>
      let made := if dotted then Origin.dotted else Origin.path
      (descend dotted change path made []).map fun inner => entries.put key (.table made inner)
    | some (.table origin inner) =>
      if origin = .inline || (dotted && origin = .header) then none
      else
        (descend dotted change path origin inner).map fun inner =>
          entries.put key (.table origin inner)
    | some (.array true items) =>
      match items.getLast? with
      | some (.table origin inner) =>
        (descend dotted change path origin inner).map fun inner =>
          entries.put key (.array true (items.dropLast ++ [.table origin inner]))
      | _ => none
    | some _ => none

/-- The table with one more assignment. The key must be new, and if it is dotted, its last table
must come from dotted keys too. -/
def assign (key : Key) (value : Value) (entries : Entries) : Option Entries :=
  descend true
    (fun origin entries =>
      if (origin = .dotted) = (key.path = []) then none
      else if (entries.lookup key.name).isSome then none
      else some (entries ++ [(key.name, value)]))
    key.path .header entries

/-- The table with several assignments. -/
def assignAll : List (Key × Value) → Entries → Option Entries
  | [], entries => some entries
  | (key, value) :: rest, entries =>
    match assign key value entries with
    | none => none
    | some entries => assignAll rest entries

inductive Heading where
  | table (key : Key)
  /-- The header of one more table in a list. -/
  | element (key : Key)
  deriving DecidableEq, Repr

/-- A header with its assignments. -/
structure Block where
  heading : Heading
  assignments : List (Key × Value)

/-- The document with one more block. -/
def Block.addTo (block : Block) (root : Entries) : Option Entries :=
  match block.heading with
  | .table key =>
    descend false
      (fun _ parent =>
        match parent.lookup key.name with
        | none =>
          (assignAll block.assignments []).map fun inner =>
            parent.put key.name (.table .header inner)
        | some (.table .path inner) =>
          (assignAll block.assignments inner).map fun inner =>
            parent.put key.name (.table .header inner)
        | some _ => none)
      key.path .header root
  | .element key =>
    descend false
      (fun _ parent =>
        match parent.lookup key.name with
        | none =>
          (assignAll block.assignments []).map fun inner =>
            parent.put key.name (.array true [.table .header inner])
        | some (.array true items) =>
          (assignAll block.assignments []).map fun inner =>
            parent.put key.name (.array true (items ++ [.table .header inner]))
        | some _ => none)
      key.path .header root

/-- The document of the assignments before any header and the blocks after them. -/
def build (assignments : List (Key × Value)) (blocks : List Block) : Option Entries :=
  (assignAll assignments []).bind fun root => blocks.foldlM (fun root block => block.addTo root) root

end KeyRemap.Toml
