import KeyRemap.Toml.Text
import KeyRemap.Toml.Value

/-!
# Reading numbers and dates

Numbers may have underscores between their digits. Integers have 64 bits. A float must not be so
large that its nearest double is infinite, unless it is negative. Dates and times must exist.
-/

namespace KeyRemap.Toml

/-- The value of a digit in a base. -/
def digitValue? (base : Nat) (c : Char) : Option Nat :=
  (hexValue? c).filter (· < base)

/-- Digits with single underscores between them, and the text after them. -/
def digits? (base : Nat) : List Char → Option (List Nat × List Char)
  | c :: '_' :: rest =>
    match digitValue? base c with
    | none => none
    | some value => (digits? base rest).map fun (values, rest) => (value :: values, rest)
  | c :: d :: rest =>
    match digitValue? base c with
    | none => none
    | some value =>
      match digitValue? base d with
      | none => some ([value], d :: rest)
      | some _ => (digits? base (d :: rest)).map fun (values, rest) => (value :: values, rest)
  | [c] => (digitValue? base c).map fun value => ([value], [])
  | [] => none

/-- The number of a digit list. -/
def ofDigits (base : Nat) (values : List Nat) : Nat :=
  values.foldl (fun number value => number * base + value) 0

/-- Whether a number has a minus sign, and the text after the sign. -/
def sign (cs : List Char) : Bool × List Char :=
  match cs with
  | '-' :: rest => (true, rest)
  | '+' :: rest => (false, rest)
  | cs => (false, cs)

/-- Decimal digits that start with zero only if it is the only one. -/
def wholePart? : List Char → Option (List Nat × List Char)
  | '0' :: rest => some ([0], rest)
  | cs => digits? 10 cs

/-- An integer with its value within 64 bits. -/
def within64Bits (number : Int) : Option Int :=
  if -9223372036854775808 ≤ number ∧ number ≤ 9223372036854775807 then some number else none

/-- An unsigned integer in the given base. -/
def unsigned? (base : Nat) (cs : List Char) : Option (Value × List Char) :=
  match digits? base cs with
  | none => none
  | some (values, rest) =>
    (within64Bits (ofDigits base values)).map fun number => (.integer number, rest)

def integer? : List Char → Option (Value × List Char)
  | '0' :: 'x' :: rest => unsigned? 16 rest
  | '0' :: 'o' :: rest => unsigned? 8 rest
  | '0' :: 'b' :: rest => unsigned? 2 rest
  | cs =>
    let (negative, cs) := sign cs
    match wholePart? cs with
    | none => none
    | some (values, rest) =>
      let magnitude : Int := ofDigits 10 values
      (within64Bits (if negative then -magnitude else magnitude)).map fun number =>
        (.integer number, rest)

/-- The least real number whose nearest double is infinite. -/
def infinityBound : Nat :=
  (1 <<< 1024) - (1 <<< 970)

/-- Whether the nearest double of `mantissa · 10 ^ exponent` is infinite. Only numbers with about as
many digits as the bound need the exact comparison. -/
def isInfinite (mantissa : Nat) (exponent : Int) : Bool :=
  let magnitude : Int := (Nat.toDigits 10 mantissa).length + exponent
  if mantissa = 0 || magnitude < 300 then false
  else if 320 < magnitude then true
  else if 0 ≤ exponent then infinityBound ≤ mantissa * Nat.pow 10 exponent.toNat
  else infinityBound * Nat.pow 10 (-exponent).toNat ≤ mantissa

/-- An exponent, and the text after it. -/
def exponent? : List Char → Option (Int × List Char)
  | c :: rest =>
    if c = 'e' || c = 'E' then
      let (negative, rest) := sign rest
      (digits? 10 rest).map fun (values, rest) =>
        (if negative then -(ofDigits 10 values : Int) else ofDigits 10 values, rest)
    else none
  | [] => none

/-- The digits after a point, and the text after them. -/
def fraction? : List Char → Option (List Nat × List Char)
  | '.' :: rest => digits? 10 rest
  | _ => none

/-- A float in digits: with a fraction, an exponent or both. -/
def decimalFloat? (cs : List Char) : Option (List Char) :=
  let (negative, cs) := sign cs
  match wholePart? cs with
  | none => none
  | some (whole, cs) =>
    let accept := fun (fraction : List Nat) (exponent : Int) (rest : List Char) =>
      if !negative && isInfinite (ofDigits 10 (whole ++ fraction)) (exponent - fraction.length) then
        none
      else some rest
    match fraction? cs with
    | some (fraction, cs) =>
      match exponent? cs with
      | some (exponent, cs) => accept fraction exponent cs
      | none => accept fraction 0 cs
    | none =>
      match exponent? cs with
      | some (exponent, cs) => accept [] exponent cs
      | none => none

/-- A float that has a name. -/
def namedFloat? (cs : List Char) : Option (List Char) :=
  match (sign cs).2 with
  | 'i' :: 'n' :: 'f' :: rest => some rest
  | 'n' :: 'a' :: 'n' :: rest => some rest
  | _ => none

def float? (cs : List Char) : Option (Value × List Char) :=
  ((decimalFloat? cs).orElse fun _ => namedFloat? cs).map fun rest => (.float, rest)

/-- A number of exactly the given count of digits, within bounds, and the text after it. -/
def fixedDigits? (count low high : Nat) (cs : List Char) : Option (Nat × List Char) :=
  let digits := cs.take count
  if digits.length < count then none
  else
    match digits.mapM (digitValue? 10) with
    | none => none
    | some values =>
      let number := ofDigits 10 values
      if low ≤ number && number ≤ high then some (number, cs.drop count) else none

/-- The text after a given character. -/
def charThen? (c : Char) : List Char → Option (List Char)
  | [] => none
  | d :: rest => if d = c then some rest else none

/-- The number of days of a month. -/
def daysInMonth (year month : Nat) : Nat :=
  if month = 2 then
    if year % 4 = 0 && (year % 100 ≠ 0 || year % 400 = 0) then 29 else 28
  else if month = 4 || month = 6 || month = 9 || month = 11 then 30
  else 31

def date? (cs : List Char) : Option (List Char) := do
  let (year, cs) ← fixedDigits? 4 0 9999 cs
  let cs ← charThen? '-' cs
  let (month, cs) ← fixedDigits? 2 1 12 cs
  let cs ← charThen? '-' cs
  let (_, cs) ← fixedDigits? 2 1 (daysInMonth year month) cs
  return cs

/-- A time of day; a leap second is allowed. -/
def time? (cs : List Char) : Option (List Char) := do
  let (_, cs) ← fixedDigits? 2 0 23 cs
  let cs ← charThen? ':' cs
  let (_, cs) ← fixedDigits? 2 0 59 cs
  let cs ← charThen? ':' cs
  let (_, cs) ← fixedDigits? 2 0 60 cs
  match cs with
  | '.' :: c :: rest =>
    if c.isDigit then return rest.dropWhile Char.isDigit else return cs
  | _ => return cs

/-- A distance from universal time. -/
def offset? (cs : List Char) : Option (List Char) :=
  match cs with
  | 'Z' :: rest | 'z' :: rest => some rest
  | '+' :: rest | '-' :: rest => do
    let (_, rest) ← fixedDigits? 2 0 23 rest
    let rest ← charThen? ':' rest
    let (_, rest) ← fixedDigits? 2 0 59 rest
    return rest
  | _ => none

/-- A time after a date, with its distance from universal time if one is given. -/
def timeOfDate? : List Char → Option (List Char)
  | c :: rest =>
    if c = 'T' || c = 't' || c = ' ' then
      (time? rest).map fun rest => (offset? rest).getD rest
    else none
  | [] => none

/-- A date, a time or both. -/
def dateTime? (cs : List Char) : Option (Value × List Char) :=
  match date? cs with
  | some rest => some (.dateTime, (timeOfDate? rest).getD rest)
  | none => (time? cs).map fun rest => (.dateTime, rest)

def number? (cs : List Char) : Option (Value × List Char) :=
  (dateTime? cs).orElse fun _ => (float? cs).orElse fun _ => integer? cs

end KeyRemap.Toml
