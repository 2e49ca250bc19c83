import KeyRemap.Resolver
import KeyRemap.Text.Mark
import KeyRemap.Text.Pieces

/-!
# Operands and groups

A parameter text is a comma-separated list of groups, and a group is a list of tokens separated by
vertical bars. A token names a kind and a symbol, with a double colon between them. All tokens of a
group have one kind, and the group stands for the union of their codes.
-/

namespace KeyRemap

/-- A token taken apart. -/
structure Operand where
  kind : OperandKind
  symbol : String
  deriving DecidableEq, Repr

/-- Why a parameter text is refused. -/
inductive OperandError where
  /-- The token does not start with a kind and a double colon. -/
  | unknownCategory (token : String)
  | kindMismatch (group : String) (expected found : OperandKind)
  | unresolvedSymbol (token : String)
  deriving DecidableEq, Repr

def OperandError.message : OperandError → String
  | unknownCategory token => "unknown datatype '" ++ token ++ "'"
  | kindMismatch group expected found =>
    "group '" ++ group ++ "' mixes " ++ expected.name ++ " and " ++ found.name
  | unresolvedSymbol token => "unknown symbol '" ++ token ++ "'"

/-- Takes a token apart at its first double colon. The symbol may contain further ones. -/
def Operand.parse (token : String) : Except OperandError Operand :=
  match Text.cutFirst "::".toList token.toList with
  | none => .error (.unknownCategory token)
  | some (category, symbol) =>
    match OperandKind.ofName? (String.ofList category) with
    | none => .error (.unknownCategory token)
    | some kind =>
      if symbol.isEmpty then .error (.unresolvedSymbol token)
      else .ok { kind, symbol := String.ofList symbol }

/-- A group of operands of one kind. -/
structure OperandGroup where
  kind : OperandKind
  /-- The value that stands for the group. -/
  value : UInt32
  /-- The codes of the single tokens, in order. -/
  codes : List UInt32
  deriving DecidableEq, Repr

namespace OperandGroup

/-- The group of the given codes; its value is their bitwise union. -/
def ofCodes (kind : OperandKind) (codes : List UInt32) : OperandGroup where
  kind
  value := codes.foldl (· ||| ·) 0
  codes

/-- The codes of tokens that must all have one kind. The text of the group is for the error. -/
def codesOf (resolver : Resolver) (group : String) (expected : OperandKind) :
    List String → Except OperandError (List UInt32)
  | [] => .ok []
  | token :: tokens =>
    match Operand.parse token with
    | .error e => .error e
    | .ok operand =>
      if operand.kind ≠ expected then .error (.kindMismatch group expected operand.kind)
      else
        match resolver.code? operand.kind operand.symbol with
        | none => .error (.unresolvedSymbol token)
        | some code =>
          match codesOf resolver group expected tokens with
          | .error e => .error e
          | .ok codes => .ok (code :: codes)

/-- Classifies the text of one group; the first token sets its kind. A blank text is no group. -/
def classify (resolver : Resolver) (group : String) : Except OperandError (Option OperandGroup) :=
  match Text.pieces '|' group.toList with
  | [] => .ok none
  | token :: tokens =>
    match Operand.parse token with
    | .error e => .error e
    | .ok operand =>
      match codesOf resolver (Text.trimmed group) operand.kind (token :: tokens) with
      | .error e => .error e
      | .ok codes => .ok (some (ofCodes operand.kind codes))

/-- Classifies a list of group texts and leaves out the blank ones. -/
def classifyEach (resolver : Resolver) : List String → Except OperandError (List OperandGroup)
  | [] => .ok []
  | group :: groups =>
    match classify resolver group with
    | .error e => .error e
    | .ok parsed =>
      match classifyEach resolver groups with
      | .error e => .error e
      | .ok rest => .ok (parsed.toList ++ rest)

def classifyParams (resolver : Resolver) (params : String) :
    Except OperandError (List OperandGroup) :=
  classifyEach resolver (Text.fields ',' params)

end OperandGroup

end KeyRemap
