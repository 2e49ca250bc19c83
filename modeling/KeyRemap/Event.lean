import KeyRemap.CompileError
import KeyRemap.Operation
import KeyRemap.Path

/-!
# Events

What a run reports about its progress. An event is a fact; level and wording follow from it.
-/

namespace KeyRemap

inductive Level where
  | error
  | warn
  | info
  | debug
  deriving DecidableEq, Repr

def Level.name : Level → String
  | error => "ERROR"
  | warn => "WARN"
  | info => "INFO"
  | debug => "DEBUG"

/-- A reported fact. -/
inductive Event where
  | compiled (rule : String) (operation : Operation)
  /-- A closed part of a rule was merged with an open one. -/
  | mixedMerge (rule : String)
  /-- A rule is defined in several places. -/
  | splitRule (rule : String)
  | rendered (className : String) (tables slots : Nat)
  /-- A name entered the registry again. -/
  | registeredAgain (rule : String)
  /-- A line of a source did not compile. -/
  | lineFailed (source : String) (line : Nat) (cause : CompileError)
  | unitCompiled (name : String) (rules slots : Nat)
  | symbolsAccepted (symbols flags : Nat)
  /-- The symbols of a run were loaded from a file. -/
  | symbolsLoaded (symbols : Nat) (path : Path)
  | wroteUnit (path : Path) (rules : Nat)
  | wroteRegistry (path : Path) (entries : Nat)
  deriving DecidableEq, Repr

namespace Event

def level : Event → Level
  | lineFailed .. => .error
  | mixedMerge .. | registeredAgain .. => .warn
  | unitCompiled .. | wroteUnit .. | wroteRegistry .. => .info
  | compiled .. | splitRule .. | rendered .. | symbolsAccepted .. | symbolsLoaded .. => .debug

def message : Event → String
  | compiled rule operation => "Rule '" ++ rule ++ "': compiled " ++ operation.name
  | mixedMerge rule => "Merging finalized and unfinalized parts of rule '" ++ rule ++ "'"
  | splitRule rule => "Merging split definition of rule '" ++ rule ++ "'"
  | rendered className tables slots =>
    "Rendered " ++ className ++ " (" ++ tables.repr ++ " tables, " ++ slots.repr ++ " slots)"
  | registeredAgain rule => "Rule '" ++ rule ++ "' registered more than once"
  | lineFailed source line cause => source ++ ":" ++ line.repr ++ ": " ++ cause.message
  | unitCompiled name rules slots =>
    "Generated '" ++ name ++ "': " ++ rules.repr ++ " rules, " ++ slots.repr ++ " slots"
  | symbolsAccepted symbols flags =>
    "Loaded " ++ symbols.repr ++ " symbols and " ++ flags.repr ++ " config indices"
  | symbolsLoaded symbols path => "Loaded " ++ symbols.repr ++ " symbols from " ++ path.text
  | wroteUnit path rules => "Wrote " ++ path.text ++ " (" ++ rules.repr ++ " rules)"
  | wroteRegistry path entries =>
    "Wrote registry " ++ path.text ++ " (" ++ entries.repr ++ " entries)"

def line (event : Event) : String :=
  event.level.name ++ " " ++ event.message

end Event

end KeyRemap
