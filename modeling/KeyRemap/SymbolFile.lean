import KeyRemap.Event
import KeyRemap.OsError
import KeyRemap.SymbolMap
import KeyRemap.Toml.Document
import KeyRemap.Toml.Schema

/-!
# Symbol files

A symbol file has a section of codes for each operand kind, a section of flag positions and a range
of pseudo keys. Loading it defines all codes; no two rules may have one flag, and the range must fit
into 32 bits.
-/

namespace KeyRemap

/-- Named numbers, each name once. -/
structure NamedWords where
  entries : List (String × UInt32) := []
  nodup : (entries.map Prod.fst).Nodup := by simp

/-- The named numbers of a list in which no name occurs twice. -/
def NamedWords.ofList? (entries : List (String × UInt32)) : Option NamedWords :=
  if nodup : (entries.map Prod.fst).Nodup then some { entries, nodup } else none

/-- The contents of a symbol file. -/
structure SymbolFile where
  keyCodes : NamedWords := {}
  modifierFlags : NamedWords := {}
  consumerKeyCodes : NamedWords := {}
  pointingButtons : NamedWords := {}
  options : NamedWords := {}
  flags : NamedWords := {}
  pseudoKeys : Option PseudoKeyRange := none

/-- Why a symbol file is refused. -/
inductive SymbolError where
  | io (cause : OsError)
  | malformed
  /-- The codes of the pseudo keys do not fit into 32 bits. -/
  | rangeTooLarge (range : PseudoKeyRange)
  /-- Two rules have one flag. -/
  | sharedFlag (index : UInt32) (first second : String)
  deriving DecidableEq, Repr

def SymbolError.message : SymbolError → String
  | io cause => "IO error: " ++ cause.message
  | malformed => "TOML parse error"
  | rangeTooLarge range =>
    "Simultaneous key range " ++ range.base.toNat.repr ++ " + " ++ range.count.toNat.repr ++
      " exceeds u32"
  | sharedFlag index first second =>
    "Duplicate config index " ++ index.toNat.repr ++ " for '" ++ first ++ "' and '" ++ second ++ "'"

namespace SymbolFile

/-- The section of an operand kind. -/
def codes (file : SymbolFile) : OperandKind → NamedWords
  | .keyCode => file.keyCodes
  | .modifierFlag => file.modifierFlags
  | .consumerKeyCode => file.consumerKeyCodes
  | .pointingButton => file.pointingButtons
  | .option => file.options

/-- A section of named numbers. -/
def words? : Option Toml.Value → Option NamedWords
  | none => some {}
  | some value => (value.entries? Toml.Value.word?).bind NamedWords.ofList?

/-- The range of pseudo keys. -/
def range? (value : Toml.Value) : Option PseudoKeyRange :=
  match value.fields? ["base", "count"] with
  | some [some base, some count] => do
    return { base := ← base.word?, count := ← count.word? }
  | _ => none

/-- The contents of a file's table. -/
def ofEntries? (entries : Toml.Entries) : Option SymbolFile :=
  match Toml.Value.fields?
      ["keycode", "modifierflag", "consumerkeycode", "pointingbutton", "option", "config_index",
        "simultaneous"] (.table .header entries) with
  | some [keyCodes, modifierFlags, consumerKeyCodes, pointingButtons, options, flags, range] => do
    return {
      keyCodes := ← words? keyCodes
      modifierFlags := ← words? modifierFlags
      consumerKeyCodes := ← words? consumerKeyCodes
      pointingButtons := ← words? pointingButtons
      options := ← words? options
      flags := ← words? flags
      pseudoKeys := ← Toml.optionalField range? range }
  | _ => none

def parse? (text : String) : Option SymbolFile :=
  (Toml.read? text).bind ofEntries?

end SymbolFile

namespace SymbolMap

/-- Defines the codes of a section. -/
def insertSection (file : SymbolFile) (symbols : SymbolMap) (kind : OperandKind) : SymbolMap :=
  (file.codes kind).entries.foldl (fun symbols (name, code) => symbols.insert kind name code)
    symbols

/-- Defines flag positions one by one, as long as each is new. -/
def insertFlags : List (String × UInt32) → List (String × UInt32) → SymbolMap →
    Except SymbolError SymbolMap
  | _, [], symbols => .ok symbols
  | seen, (rule, index) :: rest, symbols =>
    match seen.find? (fun (_, other) => other == index) with
    | some (first, _) => .error (.sharedFlag index first rule)
    | none => insertFlags (seen ++ [(rule, index)]) rest (symbols.insertFlag rule index)

/-- The symbol map of a file's contents. -/
def ofFile (file : SymbolFile) : Except SymbolError SymbolMap :=
  match insertFlags [] file.flags.entries (OperandKind.all.foldl (insertSection file) {}) with
  | .error e => .error e
  | .ok symbols =>
    match file.pseudoKeys with
    | none => .ok symbols
    | some range =>
      match symbols.insertPseudoKeys range with
      | .error range => .error (.rangeTooLarge range)
      | .ok symbols => .ok symbols

def load (text : String) : Except SymbolError SymbolMap :=
  match SymbolFile.parse? text with
  | none => .error .malformed
  | some file => ofFile file

def loadEvents (symbols : SymbolMap) : List Event :=
  [.symbolsAccepted symbols.size symbols.flags.size]

end SymbolMap

end KeyRemap
