import KeyRemap.Event
import KeyRemap.Hook

/-!
# Registry

The registry lists, in order, which entry points each rule has. Its columns are the dispatch tables
of the run.
-/

namespace KeyRemap

/-- The entry points of one rule: references to functions of its class. -/
structure Registry.Entry where
  name : String
  hooks : PerHook (Option String)
  enabled : Option String
  deriving DecidableEq, Repr

/-- The entries of a run, in order. -/
structure Registry where
  entries : List Registry.Entry := []
  deriving DecidableEq, Repr

namespace Registry

/-- What stands in a column for a missing entry point. -/
def absentReference : String :=
  "NULL"

namespace Entry

/-- An entry without entry points. -/
def absent (name : String) : Entry where
  name
  hooks := PerHook.ofFn fun _ => none
  enabled := none

def hook (entry : Entry) (hook : Hook) : Option String :=
  entry.hooks.get hook

/-- The entry with the reference at a hook replaced. -/
def setHook (entry : Entry) (hook : Hook) (reference : Option String) : Entry :=
  { entry with hooks := entry.hooks.set hook reference }

def isAbsent (entry : Entry) : Bool :=
  entry.enabled.isNone && entry.hooks.toList.all Option.isNone

end Entry

def get? (registry : Registry) (name : String) : Option Entry :=
  registry.entries.find? (fun entry => entry.name == name)

/-- One more entry at the end; a name may occur again. -/
def add (registry : Registry) (entry : Entry) : Registry :=
  ⟨registry.entries ++ [entry]⟩

/-- What is reported about an added entry. -/
def addEvents (registry : Registry) (entry : Entry) : List Event :=
  if registry.entries.any (fun other => other.name == entry.name) then
    [.registeredAgain entry.name]
  else []

/-- The entries of a second registry added one by one, with what is reported about them. -/
def extend (registry : Registry) : List Entry → Registry × List Event
  | [] => (registry, [])
  | entry :: entries =>
    let (extended, events) := (registry.add entry).extend entries
    (extended, registry.addEvents entry ++ events)

/-- The references at a hook, over all entries. -/
def column (registry : Registry) (hook : Hook) : List String :=
  registry.entries.map fun entry => (entry.hook hook).getD absentReference

/-- The references to the enable predicates, over all entries. -/
def enabledColumn (registry : Registry) : List String :=
  registry.entries.map fun entry => entry.enabled.getD absentReference

end Registry

end KeyRemap
