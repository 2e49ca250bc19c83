import KeyRemap.Operand.Group

/-!
# Compile errors
-/

namespace KeyRemap

/-- Why a rule does not compile. -/
inductive CompileError where
  | operand (rule operation : String) (cause : OperandError)
  | unknownOperation (rule operation : String)
  deriving DecidableEq, Repr

namespace CompileError

def rule : CompileError → String
  | operand rule _ _ => rule
  | unknownOperation rule _ => rule

/-- The name of the operation that does not compile. -/
def operation : CompileError → String
  | operand _ operation _ => operation
  | unknownOperation _ operation => operation

/-- The rule has code and no enable flag. -/
def noFlag (rule : String) : CompileError :=
  operand rule "enabled" (.unresolvedSymbol rule)

def message : CompileError → String
  | operand rule operation cause => "rule '" ++ rule ++ "': " ++ operation ++ ": " ++ cause.message
  | unknownOperation rule operation =>
    "rule '" ++ rule ++ "': unknown operation '" ++ operation ++ "'"

end CompileError

end KeyRemap
