import KeyRemap.Run

/-!
# The command line

Reads the arguments and runs them on the files of the machine.
-/

namespace KeyRemap

/-- The fault of an operation of the machine. -/
def OsError.ofMachine : IO.Error → OsError
  | .noFileOrDirectory .. => .notFound
  | .alreadyExists .. => .fileExists
  | .inappropriateType .. => .notADirectory
  | error => .other (toString error)

/-- The access to the files of the machine. -/
def machineFiles : FileAccess IO where
  read path := do
    match ← (IO.FS.readBinFile path.text).toBaseIO with
    | .error error => return .error (.ofMachine error)
    | .ok bytes =>
      match String.fromUTF8? bytes with
      | none => return .error .invalidText
      | some text => return .ok text
  makeDirectories path := do
    match ← (IO.FS.createDirAll path.text).toBaseIO with
    | .error error => return .error (.ofMachine error)
    | .ok () => return .ok ()
  write path text := do
    match ← (IO.FS.writeFile path.text text).toBaseIO with
    | .error error => return .error (.ofMachine error)
    | .ok () => return .ok ()

def usageText : String :=
  "Usage: remapgen [OPTIONS] [INPUT]...\n\n" ++
    "  -c, --config <CONFIG>      TOML generator configuration\n" ++
    "  -s, --symbols <SYMBOLS>    Symbol table (overrides the config file)\n" ++
    "  -o, --output <OUTPUT>      Output file when compiling INPUTs directly\n" ++
    "  -r, --registry <REGISTRY>  Write the registry manifest here\n" ++
    "  -v, --verbose              Enable debug logging\n" ++
    "      --check-config         Validate config and symbol table, then exit\n" ++
    "  -h, --help                 Print help\n" ++
    "  -V, --version              Print version\n"

def Event.isShown (verbose : Bool) (event : Event) : Bool :=
  verbose || event.level ≠ .debug

end KeyRemap

open KeyRemap in
def main (arguments : List String) : IO UInt32 := do
  match Settings.parse arguments with
  | .error .help =>
    IO.print usageText
    return 0
  | .error .version =>
    IO.println "remapgen 0.3.0"
    return 0
  | .error stop =>
    IO.eprint usageText
    return UInt32.ofNat stop.exitCode
  | .ok settings =>
    if settings.inputs.isEmpty && settings.output.isSome then
      IO.eprintln "WARN --output is ignored without INPUT files"
    let configHome ← IO.getEnv "XDG_CONFIG_HOME"
    let home ← IO.getEnv "HOME"
    let report ← settings.run machineFiles (home.map (Plan.defaultPath configHome))
    for event in report.events do
      if event.isShown settings.verbose then IO.eprintln event.line
    IO.print report.output
    match report.failure with
    | none => return 0
    | some failure =>
      IO.eprintln ("Error: " ++ failure.message)
      return 1
