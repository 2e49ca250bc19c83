import KeyRemap.Operand.Kind

/-!
# Resolvers

A compilation looks up two things: the code of a name within a kind, and the position of a rule's
enable flag. A resolver is any pair of such look-ups.
-/

namespace KeyRemap

/-- The look-ups a compilation needs. -/
structure Resolver where
  code? : OperandKind → String → Option UInt32
  /-- The position of a rule's flag among the enable flags. -/
  flag? : String → Option UInt32

/-- What the names of pseudo keys for simultaneous presses begin with. -/
def pseudoKeyStem : String :=
  "VK_SIMULTANEOUSKEYPRESSES_"

/-- The name of the pseudo key with a given suffix. -/
def pseudoKey (suffix : Nat) : String :=
  pseudoKeyStem ++ suffix.repr

end KeyRemap
