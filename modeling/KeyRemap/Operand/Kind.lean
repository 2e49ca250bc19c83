/-!
# Operand kinds
-/

namespace KeyRemap

/-- The category of an operand, written before its double colon. -/
inductive OperandKind where
  | keyCode
  | modifierFlag
  | consumerKeyCode
  | pointingButton
  | option
  deriving DecidableEq, Repr, Hashable

namespace OperandKind

def all : List OperandKind :=
  [keyCode, modifierFlag, consumerKeyCode, pointingButton, option]

/-- The name that stands before the double colon. -/
def name : OperandKind → String
  | keyCode => "KeyCode"
  | modifierFlag => "ModifierFlag"
  | consumerKeyCode => "ConsumerKeyCode"
  | pointingButton => "PointingButton"
  | option => "Option"

/-- The kind of a given name; the spelling has to be exact. -/
def ofName? (name : String) : Option OperandKind :=
  all.find? (fun kind => kind.name == name)

/-- The constant that announces a value of the kind in a table. -/
def datatype : OperandKind → String
  | keyCode => "BRIDGE_DATATYPE_KEYCODE"
  | modifierFlag => "BRIDGE_DATATYPE_FLAGS"
  | consumerKeyCode => "BRIDGE_DATATYPE_CONSUMERKEYCODE"
  | pointingButton => "BRIDGE_DATATYPE_POINTINGBUTTON"
  | option => "BRIDGE_DATATYPE_OPTION"

end OperandKind

end KeyRemap
