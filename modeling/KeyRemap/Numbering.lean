/-!
# Numbering

Two running numbers go through a compilation: the slots of the value array, which start anew for
each output file, and the suffixes of the pseudo keys, which go on over the whole run.
-/

namespace KeyRemap

/-- The running numbers. -/
structure Numbering where
  /-- How many slots are taken; this is the next slot. -/
  slots : Nat := 0
  /-- How many suffixes are taken; this is the next suffix. -/
  suffixes : Nat := 0
  deriving DecidableEq, Repr

namespace Numbering

/-- Fresh slots, and suffixes from a given number on. -/
def startingAt (suffixes : Nat) : Numbering :=
  { suffixes }

/-- The numbering for the next output file. -/
def nextFile (numbering : Numbering) : Numbering :=
  startingAt numbering.suffixes

def takeSlot (numbering : Numbering) : Numbering :=
  { numbering with slots := numbering.slots + 1 }

def takeSuffix (numbering : Numbering) : Numbering :=
  { numbering with suffixes := numbering.suffixes + 1 }

end Numbering

end KeyRemap
