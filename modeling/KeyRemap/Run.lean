import KeyRemap.Compilation
import KeyRemap.FileTree
import KeyRemap.Plan
import KeyRemap.Settings
import KeyRemap.SymbolFile

/-!
# Runs

A run finds its plan, loads the symbols, reads all sources, compiles all units and then writes the
output files and the registry. Nothing is written before everything is compiled. The files are
reached through `FileAccess`; `FileTree.access` is the access to a file tree.
-/

namespace KeyRemap

/-- The file operations of a run. -/
structure FileAccess (m : Type → Type) where
  read : Path → m (Except OsError String)
  /-- Makes a directory and those it lies in. -/
  makeDirectories : Path → m (Except OsError Unit)
  write : Path → String → m (Except OsError Unit)

/-- The access to a file tree. -/
def FileTree.access : FileAccess (StateM FileTree) where
  read path := fun tree => (tree.read path, tree)
  makeDirectories path := fun tree => tree.makeDirectories path.ancestors
  write path text := fun tree =>
    match tree.write path text with
    | .error e => (.error e, tree)
    | .ok tree => (.ok (), tree)

/-- Why a run fails. -/
inductive Failure where
  | symbolsRequired
  | outputRequired
  /-- No plan is named, and there is no place to look for one. -/
  | noDefaultPlan
  | loadingPlan (path : Path) (cause : PlanError)
  | loadingSymbols (path : Path) (cause : SymbolError)
  | reading (path : Path) (cause : OsError)
  | compiling (cause : CompileError)
  | creating (path : Path) (cause : OsError)
  | writing (path : Path) (cause : OsError)
  deriving DecidableEq, Repr

namespace Failure

/-- The words of a refused plan, down to the fault of the file system. -/
def planChain : PlanError → String
  | .io cause => PlanError.message (.io cause) ++ ": " ++ cause.message
  | cause => cause.message

/-- The words of a refused symbol file, down to the fault of the file system. Which rules are named
where flags are shared depends on the order in which a file's flags are visited, so here the flag
stands alone. -/
def symbolChain : SymbolError → String
  | .io cause => SymbolError.message (.io cause) ++ ": " ++ cause.message
  | .sharedFlag index _ _ => "Duplicate config index " ++ index.toNat.repr
  | cause => cause.message

def message : Failure → String
  | symbolsRequired => "--symbols is required when INPUT files are given"
  | outputRequired => "--output is required when INPUT files are given"
  | noDefaultPlan => "--config is required (no default config directory)"
  | loadingPlan path cause => "loading config " ++ path.text ++ ": " ++ planChain cause
  | loadingSymbols path cause => "loading symbols " ++ path.text ++ ": " ++ symbolChain cause
  | reading path cause => "reading " ++ path.text ++ ": " ++ cause.message
  | compiling cause => cause.message
  | creating path cause => "creating " ++ path.text ++ ": " ++ cause.message
  | writing path cause => "writing " ++ path.text ++ ": " ++ cause.message

end Failure

/-- What a run prints and reports, and how it fails if it does. -/
structure RunReport where
  output : String := ""
  events : List Event := []
  failure : Option Failure := none

namespace Settings

/-- The plan of a command line with inputs: one unit, named for its output file. -/
def inputPlan (settings : Settings) : Except Failure Plan :=
  match settings.symbols, settings.output with
  | none, _ => .error .symbolsRequired
  | some _, none => .error .outputRequired
  | some symbols, some output =>
    .ok
      { symbols
        registry := settings.registry
        units :=
          [{ name := output.fileStem?.getD "remapclass", sources := settings.inputs, output }] }

/-- A plan with the symbol and registry files that the command line names. -/
def override (settings : Settings) (plan : Plan) : Plan :=
  { plan with
    symbols := settings.symbols.getD plan.symbols
    registry := settings.registry.or plan.registry }

end Settings

section

variable {m : Type → Type} [Monad m]

namespace FileAccess

def loadPlan (files : FileAccess m) (path : Path) : m (Except PlanError Plan) := do
  match ← files.read path with
  | .error cause => return .error (.io cause)
  | .ok text => return Plan.parseAt path text

def loadSymbols (files : FileAccess m) (path : Path) : m (Except SymbolError SymbolMap) := do
  match ← files.read path with
  | .error cause => return .error (.io cause)
  | .ok text => return SymbolMap.load text

/-- The plan of a command line. -/
def findPlan (files : FileAccess m) (defaultPlan : Option Path) (settings : Settings) :
    m (Except Failure Plan) := do
  if settings.inputs.isEmpty then
    match settings.config.or defaultPlan with
    | none => return .error .noDefaultPlan
    | some path =>
      match ← files.loadPlan path with
      | .error cause => return .error (.loadingPlan path cause)
      | .ok plan => return .ok (settings.override plan)
  else return settings.inputPlan

/-- Reads the sources of a unit; a source is labelled with its path. -/
def readSources (files : FileAccess m) : List Path → m (Except Failure (List Source))
  | [] => return .ok []
  | path :: paths => do
    match ← files.read path with
    | .error cause => return .error (.reading path cause)
    | .ok text =>
      match ← files.readSources paths with
      | .error failure => return .error failure
      | .ok sources => return .ok ({ label := path.text, text } :: sources)

/-- Reads the sources of all units. -/
def readUnits (files : FileAccess m) : List UnitPlan → m (Except Failure (List UnitInput))
  | [] => return .ok []
  | unit :: units => do
    match ← files.readSources unit.sources with
    | .error failure => return .error failure
    | .ok sources =>
      match ← files.readUnits units with
      | .error failure => return .error failure
      | .ok inputs => return .ok ({ name := unit.name, sources } :: inputs)

/-- Writes a file, and makes the directory it lies in. -/
def writeFile (files : FileAccess m) (path : Path) (text : String) : m (Option Failure) := do
  let made ←
    match path.parent?.filter (fun parent => !parent.text.isEmpty) with
    | none => pure none
    | some parent =>
      match ← files.makeDirectories parent with
      | .error cause => pure (some (.creating parent cause))
      | .ok () => pure none
  match made with
  | some failure => return some failure
  | none =>
    match ← files.write path text with
    | .error cause => return some (.writing path cause)
    | .ok () => return none

end FileAccess

/-- A file to write and what is reported when it is written. -/
structure OutputJob where
  path : Path
  text : String
  event : Event

/-- The files that a compiled run writes, in order. -/
def Plan.jobs (plan : Plan) (compilation : Compilation) : List OutputJob :=
  (plan.units.zip compilation.units).map
      (fun (unit, compiled) =>
        { path := unit.output
          text := compiled.code
          event := .wroteUnit unit.output compiled.rules.length }) ++
    plan.registry.toList.map fun path =>
      { path
        text := compilation.registry.manifest
        event := .wroteRegistry path compilation.registry.entries.length }

/-- Writes files one after the other up to the first failure. -/
def FileAccess.writeJobs (files : FileAccess m) :
    List OutputJob → m (List Event × Option Failure)
  | [] => return ([], none)
  | job :: jobs => do
    match ← files.writeFile job.path job.text with
    | some failure => return ([], some failure)
    | none =>
      let (events, failure) ← files.writeJobs jobs
      return (job.event :: events, failure)

/-- What a run prints that only checks its files. -/
def Plan.summary (plan : Plan) (symbols : SymbolMap) : String :=
  "Configuration is valid (" ++ plan.units.length.repr ++ " units, " ++ symbols.size.repr ++
    " symbols)\n"

def Settings.run (settings : Settings) (files : FileAccess m) (defaultPlan : Option Path) :
    m RunReport := do
  match ← files.findPlan defaultPlan settings with
  | .error failure => return { failure := some failure }
  | .ok plan =>
    match ← files.loadSymbols plan.symbols with
    | .error cause => return { failure := some (.loadingSymbols plan.symbols cause) }
    | .ok symbols =>
      let loaded := symbols.loadEvents ++ [.symbolsLoaded symbols.size plan.symbols]
      if settings.checkConfig then return { output := plan.summary symbols, events := loaded }
      else
        match ← files.readUnits plan.units with
        | .error failure => return { events := loaded, failure := some failure }
        | .ok inputs =>
          match Compiler.compile { resolver := symbols.resolver } inputs with
          | (.error cause, events) =>
            return { events := loaded ++ events, failure := some (.compiling cause) }
          | (.ok compilation, events) =>
            let (written, failure) ← files.writeJobs (plan.jobs compilation)
            return { events := loaded ++ events ++ written, failure }

end

end KeyRemap
