import KeyRemap.Operand.Group
import KeyRemap.Operation

/-!
# Operand tables
-/

namespace KeyRemap

/-- The array that sets up one slot: an operation and its groups. -/
structure OperandTable where
  operation : Operation
  groups : List OperandGroup
  deriving DecidableEq, Repr

/-- A constant converted to a table element. -/
def constantElement (constant : String) : String :=
  "static_cast<unsigned int>(" ++ constant ++ ")"

/-- The elements of the array: the operation's marker, then datatype and value of each group. -/
def OperandTable.elements (table : OperandTable) : List String :=
  constantElement table.operation.marker ::
    table.groups.flatMap fun group => [constantElement group.kind.datatype, group.value.toNat.repr]

end KeyRemap
