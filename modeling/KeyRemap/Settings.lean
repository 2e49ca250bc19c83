import KeyRemap.Path

/-!
# Command-line settings

The arguments of a run. Four options take a path, in the next argument or attached to the option;
two flags take nothing; every other argument is an input, and after two dashes all are. An option's
value is checked when the next option, flag or input after it is met, so an argument that is not
known at all is reported before a bad value in front of it.
-/

namespace KeyRemap

/-- What a command line asks for. -/
structure Settings where
  config : Option Path := none
  symbols : Option Path := none
  output : Option Path := none
  registry : Option Path := none
  verbose : Bool := false
  checkConfig : Bool := false
  inputs : List Path := []
  deriving DecidableEq, Repr

/-- Why a command line is not run. -/
inductive UsageStop where
  | help
  | version
  | unknownArgument
  | invalidValue
  | argumentConflict
  | tooManyValues
  deriving DecidableEq, Repr

/-- The exit code of a command line that is not run. -/
def UsageStop.exitCode : UsageStop → Nat
  | help | version => 0
  | _ => 2

/-- The options that take a path. -/
inductive PathOption where
  | config
  | symbols
  | output
  | registry
  deriving DecidableEq, Repr

/-- The arguments that take nothing. -/
inductive Flag where
  | verbose
  | checkConfig
  | help
  | version
  deriving DecidableEq, Repr

/-- What an option name stands for. -/
inductive Named where
  | option (option : PathOption)
  | flag (flag : Flag)
  deriving DecidableEq, Repr

namespace Named

/-- The option or flag of a long name. -/
def ofLong? (name : String) : Option Named :=
  match name with
  | "config" => some (option .config)
  | "symbols" => some (option .symbols)
  | "output" => some (option .output)
  | "registry" => some (option .registry)
  | "verbose" => some (flag .verbose)
  | "check-config" => some (flag .checkConfig)
  | "help" => some (flag .help)
  | "version" => some (flag .version)
  | _ => none

/-- The option or flag of a letter. -/
def ofLetter? (letter : Char) : Option Named :=
  match letter with
  | 'c' => some (option .config)
  | 's' => some (option .symbols)
  | 'o' => some (option .output)
  | 'r' => some (option .registry)
  | 'v' => some (flag .verbose)
  | 'h' => some (flag .help)
  | 'V' => some (flag .version)
  | _ => none

end Named

namespace Settings

def get (settings : Settings) : PathOption → Option Path
  | .config => settings.config
  | .symbols => settings.symbols
  | .output => settings.output
  | .registry => settings.registry

def put (settings : Settings) (option : PathOption) (path : Path) : Settings :=
  match option with
  | .config => { settings with config := some path }
  | .symbols => { settings with symbols := some path }
  | .output => { settings with output := some path }
  | .registry => { settings with registry := some path }

/-- Gives an option its value, which must be its first. -/
def store (option : PathOption) (value : String) (settings : Settings) :
    Except UsageStop Settings :=
  if (settings.get option).isSome then .error .argumentConflict
  else if value = "" then .error .invalidValue
  else .ok (settings.put option ⟨value⟩)

/-- Raises a flag, which must be down. -/
def raise (flag : Flag) (settings : Settings) : Except UsageStop Settings :=
  match flag with
  | .verbose =>
    if settings.verbose then .error .argumentConflict else .ok { settings with verbose := true }
  | .checkConfig =>
    if settings.checkConfig then .error .argumentConflict
    else .ok { settings with checkConfig := true }
  | .help => .error .help
  | .version => .error .version

end Settings

/-- Arguments that are read but not yet checked. -/
inductive Pending where
  | nothing
  /-- An option, with its value if that has been read. -/
  | option (option : PathOption) (value : Option String)
  | inputs (values : List String)
  deriving DecidableEq, Repr

/-- How far the reading of arguments has come. -/
structure ArgumentReading where
  settings : Settings := {}
  pending : Pending := .nothing
  /-- Whether two dashes have been met. -/
  onlyInputs : Bool := false

namespace ArgumentReading

/-- The settings after the pending arguments are checked. -/
def settle (reading : ArgumentReading) : Except UsageStop Settings :=
  match reading.pending with
  | .nothing => .ok reading.settings
  | .option _ none => .error .invalidValue
  | .option option (some value) => reading.settings.store option value
  | .inputs values =>
    if values.contains "" then .error .invalidValue
    else .ok { reading.settings with inputs := reading.settings.inputs ++ values.map Path.mk }

/-- Meets an option with its value attached. -/
def attached (reading : ArgumentReading) (option : PathOption) (value : String) :
    Except UsageStop ArgumentReading := do
  let settings ← reading.settle
  return { reading with settings := ← settings.store option value, pending := .nothing }

/-- Meets an option whose value is still to come. -/
def awaiting (reading : ArgumentReading) (option : PathOption) :
    Except UsageStop ArgumentReading := do
  return { reading with settings := ← reading.settle, pending := .option option none }

def flagged (reading : ArgumentReading) (flag : Flag) : Except UsageStop ArgumentReading := do
  let settings ← reading.settle
  return { reading with settings := ← settings.raise flag, pending := .nothing }

/-- Meets a value: of the option before it, or an input. -/
def value (reading : ArgumentReading) (argument : String) : Except UsageStop ArgumentReading :=
  match reading.pending, reading.onlyInputs with
  | .option option none, false =>
    .ok { reading with pending := .option option (some argument) }
  | .inputs values, _ => .ok { reading with pending := .inputs (values ++ [argument]) }
  | _, _ => do
    return { reading with settings := ← reading.settle, pending := .inputs [argument] }

/-- Meets a long option, given without its dashes. -/
def long (reading : ArgumentReading) (argument : List Char) :
    Except UsageStop ArgumentReading :=
  let name := String.ofList (argument.takeWhile (· ≠ '='))
  match Named.ofLong? name, argument.dropWhile (· ≠ '=') with
  | none, _ => .error .unknownArgument
  | some (.option option), [] => reading.awaiting option
  | some (.option option), _ :: value => reading.attached option (String.ofList value)
  | some (.flag flag), [] => reading.flagged flag
  | some (.flag _), _ :: _ => .error .tooManyValues

/-- Meets letters behind one dash. What follows the letter of an option is its value; an equals sign
before the value does not belong to it. -/
def letters (reading : ArgumentReading) : List Char → Except UsageStop ArgumentReading
  | [] => .ok reading
  | letter :: rest =>
    match Named.ofLetter? letter with
    | none => .error .unknownArgument
    | some (.flag flag) => do
      let reading ← reading.flagged flag
      reading.letters rest
    | some (.option option) =>
      match rest with
      | [] => reading.awaiting option
      | '=' :: value => reading.attached option (String.ofList value)
      | value => reading.attached option (String.ofList value)

def meet (reading : ArgumentReading) (argument : String) : Except UsageStop ArgumentReading :=
  if reading.onlyInputs then reading.value argument
  else
    match argument.toList with
    | ['-', '-'] => .ok { reading with onlyInputs := true }
    | '-' :: '-' :: rest => reading.long rest
    | '-' :: letter :: rest => reading.letters (letter :: rest)
    | _ => reading.value argument

def meetAll (reading : ArgumentReading) : List String → Except UsageStop ArgumentReading
  | [] => .ok reading
  | argument :: arguments => do
    let reading ← reading.meet argument
    reading.meetAll arguments

end ArgumentReading

def Settings.parse (arguments : List String) : Except UsageStop Settings := do
  let reading ← ArgumentReading.meetAll {} arguments
  reading.settle

end KeyRemap
