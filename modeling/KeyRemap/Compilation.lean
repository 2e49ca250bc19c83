import KeyRemap.Registry.Manifest
import KeyRemap.Source

/-!
# Compilations

A unit is the list of sources that goes into one output file. Compiling a unit reads its sources
and then writes its rules out one by one, each of which enters the registry. A run compiles its
units in order and keeps registry and suffixes from one to the next. What has been reached is kept
also when a step fails.
-/

namespace KeyRemap

/-- The sources of one output file. -/
structure UnitInput where
  name : String
  sources : List Source
  deriving DecidableEq, Repr

structure CompiledUnit where
  name : String
  code : String
  /-- The names of the rules, in order of first appearance. -/
  rules : List String
  slotCount : Nat
  deriving DecidableEq, Repr

structure Compilation where
  units : List CompiledUnit
  registry : Registry
  deriving DecidableEq, Repr

/-- What goes from one unit to the next. -/
structure Workbench where
  numbering : Numbering := {}
  registry : Registry := {}
  events : List Event := []

/-- The rules of a unit written out so far. -/
structure Emission where
  registry : Registry
  code : String := ""
  rules : List String := []
  events : List Event := []

/-- Writes a rule out and registers it. -/
def Rule.emit (resolver : Resolver) (rule : Rule) : EStateM CompileError Emission Unit :=
  fun emission =>
    match rule.render resolver with
    | .error cause => .error cause emission
    | .ok rendered =>
      .ok ()
        { registry := emission.registry.add rendered.entry
          code := emission.code ++ rendered.code
          rules := emission.rules ++ [rule.name]
          events :=
            emission.events ++ rendered.events ++ emission.registry.addEvents rendered.entry }

namespace Compiler

def emitRules (compiler : Compiler) : List Rule → EStateM CompileError Emission Unit
  | [] => pure ()
  | rule :: rules => do
    rule.emit compiler.resolver
    compiler.emitRules rules

def compileUnit (compiler : Compiler) (input : UnitInput) :
    EStateM CompileError Workbench CompiledUnit := fun bench =>
  match compiler.readSources input.sources { numbering := bench.numbering } with
  | .error cause reading =>
    .error cause
      { bench with
        numbering := reading.numbering
        events := bench.events ++ reading.events }
  | .ok () reading =>
    match compiler.emitRules reading.rules { registry := bench.registry } with
    | .error cause emission =>
      .error cause
        { numbering := reading.numbering
          registry := emission.registry
          events := bench.events ++ reading.events ++ emission.events }
    | .ok () emission =>
      .ok
        { name := input.name
          code := emission.code
          rules := emission.rules
          slotCount := reading.numbering.slots }
        { numbering := reading.numbering
          registry := emission.registry
          events :=
            bench.events ++ reading.events ++ emission.events ++
              [.unitCompiled input.name emission.rules.length reading.numbering.slots] }

/-- Compiles units in order, each with fresh slots. -/
def compileUnits (compiler : Compiler) :
    List UnitInput → EStateM CompileError Workbench (List CompiledUnit)
  | [] => pure []
  | input :: inputs => do
    let unit ← compiler.compileUnit input
    modify fun bench => { bench with numbering := bench.numbering.nextFile }
    let units ← compiler.compileUnits inputs
    return unit :: units

/-- Compiles a run from the start, with what is reported on the way. -/
def compile (compiler : Compiler) (inputs : List UnitInput) :
    Except CompileError Compilation × List Event :=
  match compiler.compileUnits inputs {} with
  | .ok units bench => (.ok { units, registry := bench.registry }, bench.events)
  | .error cause bench => (.error cause, bench.events)

end Compiler

end KeyRemap
