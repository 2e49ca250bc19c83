/-!
# Values of the file format

The values that a TOML file can hold. A table remembers how it came about, because that decides what
a later part of the file may add to it.
-/

namespace KeyRemap.Toml

/-- How a table came about. -/
inductive Origin where
  /-- Its own header. -/
  | header
  /-- The header of a table inside it. -/
  | path
  /-- A dotted key. -/
  | dotted
  /-- Braces. -/
  | inline
  deriving DecidableEq, Repr

/-- A value. Floats and dates are told apart from other values but not kept. -/
inductive Value where
  | string (text : String)
  | integer (number : Int)
  | boolean (truth : Bool)
  | float
  | dateTime
  /-- A list of values; it grows if each header of its name adds a table. -/
  | array (grows : Bool) (items : List Value)
  | table (origin : Origin) (entries : List (String × Value))

/-- The keys and values of a table; no key occurs twice. -/
abbrev Entries := List (String × Value)

/-- The value of a key set or replaced. -/
def Entries.put (key : String) (value : Value) : Entries → Entries
  | [] => [(key, value)]
  | (other, old) :: rest =>
    if other = key then (key, value) :: rest else (other, old) :: Entries.put key value rest

/-- A dotted key: the tables it goes through and its last part. -/
structure Key where
  path : List String
  name : String
  deriving DecidableEq, Repr

end KeyRemap.Toml
