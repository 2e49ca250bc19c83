/-!
# Quoted strings

A string is written in the first of five forms that suits it. The forms differ in their delimiter
and in whether special characters are escaped or stand for themselves; a string over several lines
begins on the line after its opening delimiter.
-/

namespace KeyRemap.Toml

/-- The ways to write a string. -/
inductive Quoting where
  /-- Between double quotes, with escapes. -/
  | basic
  /-- Between single quotes, as it stands. -/
  | literal
  /-- Between triple double quotes, with escapes. -/
  | basicLines
  /-- Between triple single quotes, as it stands. -/
  | literalLines
  deriving DecidableEq, Repr

/-- A control character: one of the first thirty-two, or delete. -/
def isControl (c : Char) : Bool :=
  c.toNat < 0x20 || c.toNat == 0x7F

/-- The length of the longest run of a character, given how many of it stand right before. -/
def longestRunFrom (c : Char) (before : Nat) : List Char → Nat
  | [] => before
  | d :: rest =>
    if d = c then longestRunFrom c (before + 1) rest
    else max before (longestRunFrom c 0 rest)

/-- The length of the longest run of a character. -/
def longestRun (c : Char) (cs : List Char) : Nat :=
  longestRunFrom c 0 cs

/-- The first form that suits a text. -/
def Quoting.of (cs : List Char) : Quoting :=
  let oneLine := cs.all fun c => !isControl c || c == '\t'
  let someLines := cs.all fun c => !isControl c || c == '\t' || c == '\n'
  if oneLine && !cs.contains '\\' && !cs.contains '"' then basic
  else if oneLine && !cs.contains '\'' then literal
  else if someLines && !cs.contains '\\' && longestRun '"' cs ≤ 2 then basicLines
  else if someLines && longestRun '\'' cs ≤ 2 then literalLines
  else if cs.contains '\n' then basicLines
  else basic

/-- A hexadecimal digit in upper case. -/
def hexDigit (n : Nat) : Char :=
  if n < 10 then Char.ofNat ('0'.toNat + n) else Char.ofNat ('A'.toNat + (n - 10))

/-- A character inside double quotes, where it may need an escape. -/
def escape (c : Char) : List Char :=
  match c with
  | '\t' => ['\\', 't']
  | '\n' => ['\\', 'n']
  | '\r' => ['\\', 'r']
  | '\x08' => ['\\', 'b']
  | '\x0c' => ['\\', 'f']
  | '\\' => ['\\', '\\']
  | '"' => ['\\', '"']
  | c =>
    if isControl c then
      ['\\', 'u', '0', '0', hexDigit (c.toNat / 16), hexDigit (c.toNat % 16)]
    else [c]

/-- A text inside triple double quotes: newlines stand for themselves, and of a run of quotes every
third is escaped. The number counts the quotes written since the run began or since the last
escape. -/
def escapeLines : Nat → List Char → List Char
  | _, [] => []
  | run, '"' :: rest =>
    if run = 2 then '\\' :: '"' :: escapeLines 0 rest else '"' :: escapeLines (run + 1) rest
  | _, '\n' :: rest => '\n' :: escapeLines 0 rest
  | _, c :: rest => escape c ++ escapeLines 0 rest

/-- The newline that follows the opening delimiter of a text over several lines. -/
def leadingNewline (cs : List Char) : List Char :=
  if cs.contains '\n' then ['\n'] else []

/-- A text in a given form. -/
def Quoting.write (cs : List Char) : Quoting → List Char
  | basic => '"' :: cs.flatMap escape ++ ['"']
  | literal => '\'' :: cs ++ ['\'']
  | basicLines => "\"\"\"".toList ++ leadingNewline cs ++ escapeLines 0 cs ++ "\"\"\"".toList
  | literalLines => "'''".toList ++ leadingNewline cs ++ cs ++ "'''".toList

/-- A string as a value in a file. -/
def quoted (s : String) : String :=
  String.ofList ((Quoting.of s.toList).write s.toList)

end KeyRemap.Toml
