import KeyRemap.Resolver
import Std.Data.HashMap

/-!
# Symbol maps

A symbol map stores codes and flag positions. A name may be defined again; the last definition
counts. Pseudo keys are defined as a range of consecutive codes, as a whole or not at all.
-/

namespace KeyRemap

/-- Stored codes and flag positions. -/
structure SymbolMap where
  codes : Std.HashMap (OperandKind × String) UInt32 := {}
  flags : Std.HashMap String UInt32 := {}

/-- A range of consecutive pseudo key codes. -/
structure PseudoKeyRange where
  base : UInt32
  count : UInt32
  deriving DecidableEq, Repr

namespace PseudoKeyRange

/-- Whether every code of the range fits into 32 bits. -/
def fits (range : PseudoKeyRange) : Bool :=
  range.count == 0 || range.base.toNat + range.count.toNat - 1 < UInt32.size

end PseudoKeyRange

namespace SymbolMap

/-- The code of a name within a kind. -/
def code? (symbols : SymbolMap) (kind : OperandKind) (name : String) : Option UInt32 :=
  symbols.codes[(kind, name)]?

def flag? (symbols : SymbolMap) (rule : String) : Option UInt32 :=
  symbols.flags[rule]?

/-- The look-ups of a symbol map. -/
def resolver (symbols : SymbolMap) : Resolver where
  code? := symbols.code?
  flag? := symbols.flag?

/-- How many codes are stored; flags do not count. -/
def size (symbols : SymbolMap) : Nat :=
  symbols.codes.size

def insert (symbols : SymbolMap) (kind : OperandKind) (name : String) (code : UInt32) :
    SymbolMap :=
  { symbols with codes := symbols.codes.insert (kind, name) code }

def insertFlag (symbols : SymbolMap) (rule : String) (index : UInt32) : SymbolMap :=
  { symbols with flags := symbols.flags.insert rule index }

/-- Defines the pseudo key with a given suffix, counted from a base. -/
def insertPseudoKey (base : UInt32) (symbols : SymbolMap) (suffix : Nat) : SymbolMap :=
  symbols.insert .keyCode (pseudoKey suffix) (base + UInt32.ofNat suffix)

/-- Defines the pseudo keys of a range, or none if the range does not fit. -/
def insertPseudoKeys (symbols : SymbolMap) (range : PseudoKeyRange) :
    Except PseudoKeyRange SymbolMap :=
  if range.fits then
    .ok ((List.range range.count.toNat).foldl (insertPseudoKey range.base) symbols)
  else .error range

end SymbolMap

end KeyRemap
