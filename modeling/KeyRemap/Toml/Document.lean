import KeyRemap.Toml.Number
import KeyRemap.Toml.Table

/-!
# Reading documents

Keys, values and whole files. Arrays and inline tables nest at most seventy-nine deep, and a dotted
key has at most seventy-nine parts; the depth left is the argument on which reading a value recurs.
-/

namespace KeyRemap.Toml

/-- How deep values may nest, and how many parts a key may have. -/
def depthLimit : Nat :=
  79

/-- A character of a key without quotes. -/
def isBareKeyChar (c : Char) : Bool :=
  c.isAlphanum || c == '-' || c == '_'

/-- One part of a key, with the spaces around it. -/
def keyPart? (cs : List Char) : Option (String × List Char) :=
  match skipSpaces cs with
  | [] => none
  | c :: rest =>
    if c = '"' || c = '\'' then
      (lineString? (c :: rest)).map fun (text, rest) => (String.ofList text, skipSpaces rest)
    else if isBareKeyChar c then
      some (String.ofList ((c :: rest).takeWhile isBareKeyChar),
        skipSpaces ((c :: rest).dropWhile isBareKeyChar))
    else none

/-- A key of at most the given number of parts. -/
def keyUpTo? : Nat → List Char → Option (Key × List Char)
  | 0, _ => none
  | count + 1, cs =>
    match keyPart? cs with
    | none => none
    | some (part, '.' :: rest) =>
      (keyUpTo? count rest).map fun (key, rest) => ({ key with path := part :: key.path }, rest)
    | some (part, rest) => some ({ path := [], name := part }, rest)

def key? (cs : List Char) : Option (Key × List Char) :=
  keyUpTo? depthLimit cs

/-- A key, the equals sign and a value. -/
def assignment? (value? : List Char → Option (Value × List Char)) (cs : List Char) :
    Option ((Key × Value) × List Char) :=
  match key? cs with
  | some (key, '=' :: rest) =>
    (value? (skipSpaces rest)).map fun (value, rest) => ((key, value), rest)
  | _ => none

/-- The rest of an array; the number bounds the steps. -/
def arrayRest? (value? : List Char → Option (Value × List Char)) :
    Nat → List Char → Option (List Value × List Char)
  | 0, _ => none
  | steps + 1, cs =>
    match skipFiller false cs with
    | ']' :: rest => some ([], rest)
    | cs =>
      match value? cs with
      | none => none
      | some (value, rest) =>
        match skipFiller false rest with
        | ',' :: rest =>
          (arrayRest? value? steps rest).map fun (values, rest) => (value :: values, rest)
        | ']' :: rest => some ([value], rest)
        | _ => none

/-- The assignments of an inline table that has some, up to its brace; the number bounds the
steps. -/
def inlineRest? (value? : List Char → Option (Value × List Char)) :
    Nat → List Char → Option (List (Key × Value) × List Char)
  | 0, _ => none
  | steps + 1, cs =>
    match assignment? value? cs with
    | none => none
    | some (first, rest) =>
      match skipSpaces rest with
      | ',' :: rest =>
        (inlineRest? value? steps rest).map fun (more, rest) => (first :: more, rest)
      | '\x7d' :: rest => some ([first], rest)
      | _ => none

/-- A value that holds no other values. -/
def scalar? (cs : List Char) : Option (Value × List Char) :=
  match cs with
  | '"' :: _ | '\'' :: _ =>
    (string? cs).map fun (text, rest) => (.string (String.ofList text), rest)
  | 't' :: 'r' :: 'u' :: 'e' :: rest => some (.boolean true, rest)
  | 'f' :: 'a' :: 'l' :: 's' :: 'e' :: rest => some (.boolean false, rest)
  | cs => number? cs

/-- A value whose arrays and tables nest at most the given depth. -/
def valueUpTo? : Nat → List Char → Option (Value × List Char)
  | 0, '[' :: _ => none
  | 0, '\x7b' :: _ => none
  | depth + 1, '[' :: rest =>
    (arrayRest? (valueUpTo? depth) (rest.length + 1) rest).map fun (values, rest) =>
      (.array false values, rest)
  | depth + 1, '\x7b' :: rest =>
    match skipSpaces rest with
    | '\x7d' :: rest => some (.table .inline [], rest)
    | rest =>
      match inlineRest? (valueUpTo? depth) (rest.length + 1) rest with
      | none => none
      | some (assignments, rest) =>
        (assignAll assignments []).map fun entries => (.table .inline entries, rest)
  | _, cs => scalar? cs

/-- A header, given the text after its first bracket. -/
def heading? : List Char → Option (Heading × List Char)
  | '[' :: rest =>
    match key? rest with
    | some (key, ']' :: ']' :: rest) => some (.element key, rest)
    | _ => none
  | cs =>
    match key? cs with
    | some (key, ']' :: rest) => some (.table key, rest)
    | _ => none

/-- The assignments before the first header and the blocks after them; the number bounds the
steps. -/
def blocks? : Nat → List Char → Option (List (Key × Value) × List Block)
  | 0, _ => none
  | steps + 1, cs =>
    match skipSpaces cs with
    | [] => some ([], [])
    | '[' :: rest =>
      match heading? rest with
      | none => none
      | some (heading, rest) =>
        match lineEnd? rest with
        | none => none
        | some rest =>
          (blocks? steps rest).map fun (assignments, blocks) =>
            ([], { heading, assignments } :: blocks)
    | c :: rest =>
      if c = '#' || c = '\n' || c = '\r' then
        match lineEnd? (c :: rest) with
        | none => none
        | some rest => blocks? steps rest
      else
        match assignment? (valueUpTo? depthLimit) (c :: rest) with
        | none => none
        | some (first, rest) =>
          match lineEnd? rest with
          | none => none
          | some rest =>
            (blocks? steps rest).map fun (assignments, blocks) => (first :: assignments, blocks)

/-- The text after a byte order mark. -/
def dropMark : List Char → List Char
  | '\ufeff' :: rest => rest
  | cs => cs

/-- The table of a whole file. -/
def read? (file : String) : Option Entries :=
  let cs := dropMark file.toList
  (blocks? (cs.length + 1) cs).bind fun (assignments, blocks) => build assignments blocks

end KeyRemap.Toml
