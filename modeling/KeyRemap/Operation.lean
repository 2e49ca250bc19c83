import KeyRemap.Hook

/-!
# Operations

The sixteen operations an annotation can ask for.
-/

namespace KeyRemap

/-- What an annotation asks for. -/
inductive Operation where
  | setKeyboardType
  | dropKeyAfterRemap
  | showStatusMessage
  | simultaneousKeyPresses
  | keyToKey
  | keyToConsumer
  | keyToPointingButton
  | doublePressModifier
  | holdingKeyToKey
  | ignoreMultipleSameKeyPress
  | keyOverlaidModifier
  | consumerToConsumer
  | consumerToKey
  | pointingButtonToPointingButton
  | pointingButtonToKey
  | pointingRelativeToScroll
  deriving DecidableEq, Repr

namespace Operation

def all : List Operation :=
  [setKeyboardType, dropKeyAfterRemap, showStatusMessage, simultaneousKeyPresses, keyToKey,
    keyToConsumer, keyToPointingButton, doublePressModifier, holdingKeyToKey,
    ignoreMultipleSameKeyPress, keyOverlaidModifier, consumerToConsumer, consumerToKey,
    pointingButtonToPointingButton, pointingButtonToKey, pointingRelativeToScroll]

/-- The name that stands in an annotation. -/
def name : Operation → String
  | setKeyboardType => "SetKeyboardType"
  | dropKeyAfterRemap => "DropKeyAfterRemap"
  | showStatusMessage => "ShowStatusMessage"
  | simultaneousKeyPresses => "SimultaneousKeyPresses"
  | keyToKey => "KeyToKey"
  | keyToConsumer => "KeyToConsumer"
  | keyToPointingButton => "KeyToPointingButton"
  | doublePressModifier => "DoublePressModifier"
  | holdingKeyToKey => "HoldingKeyToKey"
  | ignoreMultipleSameKeyPress => "IgnoreMultipleSameKeyPress"
  | keyOverlaidModifier => "KeyOverlaidModifier"
  | consumerToConsumer => "ConsumerToConsumer"
  | consumerToKey => "ConsumerToKey"
  | pointingButtonToPointingButton => "PointingButtonToPointingButton"
  | pointingButtonToKey => "PointingButtonToKey"
  | pointingRelativeToScroll => "PointingRelativeToScroll"

/-- The operation of a given name; the spelling has to be exact. -/
def ofName? (name : String) : Option Operation :=
  all.find? (fun operation => operation.name == name)

/-- Whether the operation works on an operand table; the others take their parameters as one
expression. -/
def needsTable : Operation → Bool
  | setKeyboardType | showStatusMessage => false
  | _ => true

def hook : Operation → Hook
  | setKeyboardType => .keyboardType
  | dropKeyAfterRemap => .dropKey
  | showStatusMessage => .statusMessage
  | simultaneousKeyPresses | keyToKey | keyToConsumer | keyToPointingButton | doublePressModifier
  | holdingKeyToKey | ignoreMultipleSameKeyPress | keyOverlaidModifier => .key
  | consumerToConsumer | consumerToKey => .consumer
  | pointingButtonToPointingButton | pointingButtonToKey | pointingRelativeToScroll => .pointing

/-- The constant that starts the operation's table at run time. -/
def marker (operation : Operation) : String :=
  "BRIDGE_REMAPTYPE_" ++ String.ofList (operation.name.toList.map Char.toUpper)

end Operation

end KeyRemap
