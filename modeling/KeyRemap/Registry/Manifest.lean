import KeyRemap.Registry
import KeyRemap.Toml.Quoted

/-!
# The registry manifest

The registry as a file: one table per entry, with the name and the entry points that are there.
-/

namespace KeyRemap.Registry

/-- A key with a string value, on a line of its own. -/
def manifestLine (key value : String) : String :=
  key ++ " = " ++ Toml.quoted value ++ "\n"

/-- The line of an entry point that is there. -/
def optionalLine (key : String) : Option String → String
  | none => ""
  | some value => manifestLine key value

/-- The table of an entry. -/
def Entry.manifestTable (entry : Entry) : String :=
  "[[rule]]\n" ++ manifestLine "name" entry.name ++
    String.join (Hook.all.map fun hook => optionalLine hook.name (entry.hook hook)) ++
    optionalLine "enabled" entry.enabled

def manifest (registry : Registry) : String :=
  match registry.entries with
  | [] => "rule = []\n"
  | entries => String.intercalate "\n" (entries.map Entry.manifestTable)

end KeyRemap.Registry
