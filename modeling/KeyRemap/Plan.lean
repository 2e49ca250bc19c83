import KeyRemap.OsError
import KeyRemap.Path
import KeyRemap.Toml.Document
import KeyRemap.Toml.Schema

/-!
# Run plans

A plan names the symbol file, the output files with their sources, and the registry file if one is
wanted. A plan file must have units, each with sources and a name of its own; its relative paths are
meant from the directory of the file.
-/

namespace KeyRemap

/-- One output file and its sources. -/
structure UnitPlan where
  name : String
  sources : List Path
  output : Path
  deriving DecidableEq, Repr

/-- What a run has to do. -/
structure Plan where
  symbols : Path
  registry : Option Path
  units : List UnitPlan
  deriving DecidableEq, Repr

/-- Why a plan file is refused. -/
inductive PlanError where
  | io (cause : OsError)
  | malformed
  | noUnits
  | duplicateUnit (name : String)
  | emptyUnit (name : String)
  deriving DecidableEq, Repr

def PlanError.message : PlanError → String
  | io cause => "IO error: " ++ cause.message
  | malformed => "TOML parse error"
  | noUnits => "No [[unit]] entries configured"
  | duplicateUnit name => "Unit '" ++ name ++ "' is defined more than once"
  | emptyUnit name => "Unit '" ++ name ++ "' has no sources"

namespace Plan

def path? (value : Toml.Value) : Option Path :=
  value.string?.map Path.mk

def unit? (value : Toml.Value) : Option UnitPlan :=
  match value.fields? ["name", "sources", "output"] with
  | some [some name, some sources, some output] => do
    return {
      name := ← name.string?
      sources := ← sources.items? path?
      output := ← path? output }
  | _ => none

/-- The plan in a file's table. -/
def ofEntries? (entries : Toml.Entries) : Option Plan :=
  match Toml.Value.fields? ["symbols", "registry", "unit"] (.table .header entries) with
  | some [some symbols, registry, units] => do
    return {
      symbols := ← path? symbols
      registry := ← Toml.optionalField path? registry
      units := (← Toml.optionalField (Toml.Value.items? unit?) units).getD [] }
  | _ => none

/-- Checks units in order against the names of those before. -/
def checkUnits (seen : List String) : List UnitPlan → Except PlanError Unit
  | [] => .ok ()
  | unit :: units =>
    if unit.name ∈ seen then .error (.duplicateUnit unit.name)
    else if unit.sources = [] then .error (.emptyUnit unit.name)
    else checkUnits (unit.name :: seen) units

/-- Accepts a plan as it is, or tells the first thing wrong with it. -/
def validate (plan : Plan) : Except PlanError Plan :=
  if plan.units = [] then .error .noUnits
  else
    match checkUnits [] plan.units with
    | .error e => .error e
    | .ok () => .ok plan

/-- The plan of a file's text. -/
def parse (text : String) : Except PlanError Plan :=
  match (Toml.read? text).bind ofEntries? with
  | none => .error .malformed
  | some plan => plan.validate

/-- The plan with its relative paths seen from a directory. -/
def rebase (base : Path) (plan : Plan) : Plan where
  symbols := base.join plan.symbols
  registry := plan.registry.map base.join
  units := plan.units.map fun unit =>
    { unit with
      sources := unit.sources.map base.join
      output := base.join unit.output }

/-- The plan of the text of a file at a path. -/
def parseAt (path : Path) (text : String) : Except PlanError Plan :=
  match parse text with
  | .error e => .error e
  | .ok plan =>
    match path.parent? with
    | none => .ok plan
    | some base => .ok (plan.rebase base)

/-- Where the plan file is when none is named: in the configuration directory, which is the first
argument if that is an absolute path and else lies in the home directory. -/
def defaultPath (configHome : Option String) (home : String) : Path :=
  let directory :=
    match configHome with
    | some text => if (Path.mk text).isAbsolute then Path.mk text else (Path.mk home).join ⟨".config"⟩
    | none => (Path.mk home).join ⟨".config"⟩
  (directory.join ⟨"remapgen"⟩).join ⟨"remapgen.toml"⟩

end Plan

end KeyRemap
