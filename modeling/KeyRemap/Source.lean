import KeyRemap.ClassText
import KeyRemap.Header

/-!
# Reading sources

A source is an annotated text. A header line opens a rule; the rule is open until the next header,
an `</item>` line or the end of the source. A closed rule is collected: it takes its place in the
order of first appearance, or its statements are merged into an earlier part of the same name.
-/

namespace KeyRemap

/-- A text with the label by which errors refer to it. -/
structure Source where
  label : String
  text : String
  deriving DecidableEq, Repr

/-- What a line does to the rules of a source. -/
inductive LineRole where
  /-- Opens a rule. -/
  | header (name : String)
  /-- Closes the open rule. -/
  | itemEnd
  /-- Belongs to the open rule. -/
  | content
  deriving DecidableEq, Repr

def LineRole.of (line : String) : LineRole :=
  match Header.read? line with
  | some name => header name
  | none => if Text.trim line.toList = "</item>".toList then itemEnd else content

/-- What a compilation looks things up in, and the guard its rules start with. -/
structure Compiler where
  resolver : Resolver
  guards : GuardStyle := .filter

/-- How far the reading of sources has come. -/
structure Reading where
  numbering : Numbering
  /-- The closed rules, in order of first appearance. -/
  rules : List Rule := []
  opened : Option Rule := none
  events : List Event := []

namespace Reading

def report (reading : Reading) (events : List Event) : Reading :=
  { reading with events := reading.events ++ events }

/-- A closed rule among the collected ones: at the end, or merged into the one of its name. -/
def collectInto (rule : Rule) : List Rule → List Rule × List Event
  | [] => ([rule], [])
  | first :: rest =>
    if first.name = rule.name then
      (first.merge rule :: rest, .splitRule rule.name :: first.mergeEvents rule)
    else
      let (rest, events) := collectInto rule rest
      (first :: rest, events)

/-- Closes the open rule and collects it. -/
def close (reading : Reading) : Reading :=
  match reading.opened with
  | none => reading
  | some rule =>
    let (rules, events) := collectInto rule.finalize reading.rules
    { reading with rules, opened := none, events := reading.events ++ events }

end Reading

namespace Compiler

def readLine (compiler : Compiler) (label : String) (number : Nat) (line : String) :
    EStateM CompileError Reading Unit := fun reading =>
  match LineRole.of line with
  | .header name =>
    .ok () { reading.close with opened := some (Rule.new name compiler.guards.fresh) }
  | .itemEnd => .ok () reading.close
  | .content =>
    match reading.opened with
    | none => .ok () reading
    | some rule =>
      let step := rule.compileLine compiler.resolver line reading.numbering
      let reading := { reading with opened := some step.rule, numbering := step.numbering }
      match step.outcome with
      | .ok outcome => .ok () (reading.report (outcome.events rule.name))
      | .error cause => .error cause (reading.report [.lineFailed label number cause])

/-- Reads lines, the first of which has the given number. -/
def readLines (compiler : Compiler) (label : String) :
    Nat → List String → EStateM CompileError Reading Unit
  | _, [] => pure ()
  | number, line :: lines => do
    compiler.readLine label number line
    compiler.readLines label (number + 1) lines

/-- Reads a source to its end, which closes the open rule. -/
def readSource (compiler : Compiler) (source : Source) : EStateM CompileError Reading Unit := do
  compiler.readLines source.label 1 (Text.lines source.text)
  modify Reading.close

def readSources (compiler : Compiler) : List Source → EStateM CompileError Reading Unit
  | [] => pure ()
  | source :: sources => do
    compiler.readSource source
    compiler.readSources sources

end Compiler

end KeyRemap
