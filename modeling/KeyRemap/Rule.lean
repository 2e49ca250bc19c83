import KeyRemap.Annotation
import KeyRemap.CompileError
import KeyRemap.Event
import KeyRemap.Filter
import KeyRemap.Fragments
import KeyRemap.Numbering

/-!
# Rules

A rule gathers statements line by line. Each line is first offered to the guard; of the other lines
those with an annotation become operations. A closed rule has its first-match statements in guarded
blocks, and parts of one rule are merged by putting their statements one after the other.
-/

namespace KeyRemap

/-- The state of a rule. -/
structure Rule where
  name : String
  guard : Guard
  fragments : Fragments
  tableCount : Nat
  /-- One more than the highest slot of the rule. -/
  slotCount : Nat
  /-- Whether the first-match statements are in their blocks. -/
  finalized : Bool

/-- What became of a line. -/
inductive LineOutcome where
  /-- The guard took it. -/
  | guard
  | operation (operation : Operation)
  /-- It is not for the rule. -/
  | passthrough
  deriving DecidableEq, Repr

namespace LineOutcome

/-- Whether the rule did something with the line. -/
def isHandled : LineOutcome → Bool
  | passthrough => false
  | _ => true

/-- What is reported about a line of a rule. -/
def events (rule : String) : LineOutcome → List Event
  | operation op => [.compiled rule op]
  | _ => []

end LineOutcome

/-- A line's outcome, with the rule and the numbering after it. -/
structure LineStep where
  outcome : Except CompileError LineOutcome
  rule : Rule
  numbering : Numbering

/-- The statements that use the table of an operation, and their hooks. -/
def Operation.dispatch (operation : Operation) (slot : Nat) : List (Hook × Statement) :=
  match operation with
  | dropKeyAfterRemap => [(.dropKey, .dropKey slot)]
  | simultaneousKeyPresses => [(.key, .remap slot), (.simultaneous, .remapSimultaneous slot)]
  | _ => [(operation.hook, .remap slot)]

/-- The parameters an operation classifies and the numbering after them: simultaneous presses take
a suffix and get its pseudo key in front. -/
def Operation.operands (operation : Operation) (params : String) (numbering : Numbering) :
    String × Numbering :=
  match operation with
  | simultaneousKeyPresses =>
    (OperandKind.keyCode.name ++ "::" ++ pseudoKey numbering.suffixes ++ ", " ++ params,
      numbering.takeSuffix)
  | _ => (params, numbering)

namespace Rule

/-- A rule without lines. -/
def new (name : String) (guard : Guard) : Rule where
  name
  guard
  fragments := .empty
  tableCount := 0
  slotCount := 0
  finalized := false

def className (rule : Rule) : String :=
  "RemapClass_" ++ rule.name

def isEmpty (rule : Rule) : Bool :=
  rule.fragments.isEmpty

/-- The rule with a table in a slot and the statements that use it. -/
def addTable (rule : Rule) (slot : Nat) (table : OperandTable) : Rule :=
  { rule with
    fragments :=
      (rule.fragments.push .setup (.setUpTable slot table)).pushAll (table.operation.dispatch slot)
    tableCount := rule.tableCount + 1
    slotCount := max rule.slotCount (slot + 1) }

/-- Compiles an operation that works on a table. The slot is taken only when the parameters are
accepted, a suffix in any case. -/
def compileTable (resolver : Resolver) (operation : Operation) (params : String)
    (numbering : Numbering) (rule : Rule) : LineStep :=
  let (params, numbering) := operation.operands params numbering
  match OperandGroup.classifyParams resolver params with
  | .error cause =>
    { outcome := .error (.operand rule.name operation.name cause), rule, numbering }
  | .ok groups =>
    { outcome := .ok (.operation operation)
      rule := rule.addTable numbering.slots { operation, groups }
      numbering := numbering.takeSlot }

def compileOperation (resolver : Resolver) (operation : Operation) (params : String)
    (numbering : Numbering) (rule : Rule) : LineStep :=
  match operation with
  | .setKeyboardType =>
    { outcome := .ok (.operation operation)
      rule :=
        { rule with
          fragments := rule.fragments.push operation.hook (.assignKeyboardType params) }
      numbering }
  | .showStatusMessage =>
    { outcome := .ok (.operation operation)
      rule :=
        { rule with
          fragments := rule.fragments.push operation.hook (.returnStatusMessage params) }
      numbering }
  | _ => rule.compileTable resolver operation params numbering

def compileLine (resolver : Resolver) (line : String) (numbering : Numbering) (rule : Rule) :
    LineStep :=
  match rule.guard.offer line with
  | some guard => { outcome := .ok .guard, rule := { rule with guard }, numbering }
  | none =>
    match Annotation.read? line with
    | none => { outcome := .ok .passthrough, rule, numbering }
    | some annotation =>
      match Operation.ofName? annotation.operation with
      | none =>
        { outcome := .error (.unknownOperation rule.name annotation.operation), rule, numbering }
      | some operation => rule.compileOperation resolver operation annotation.params numbering

/-- The closed rule: its first-match statements go into blocks with the guard's code, once. -/
def finalize (rule : Rule) : Rule :=
  if rule.finalized then rule
  else
    { rule with
      fragments := rule.fragments.wrapFirstMatch rule.guard.code
      finalized := true }

/-- The statements of a second part after those of the first. Name and guard are the first's. -/
def merge (first second : Rule) : Rule :=
  { first with
    fragments := first.fragments.append second.fragments
    tableCount := first.tableCount + second.tableCount
    slotCount := max first.slotCount second.slotCount
    finalized := first.finalized && second.finalized }

/-- What is reported about a merge. -/
def mergeEvents (first second : Rule) : List Event :=
  if first.finalized = second.finalized then [] else [.mixedMerge first.name]

end Rule

end KeyRemap
