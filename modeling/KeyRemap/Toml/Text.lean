import KeyRemap.Toml.Layout

/-!
# Reading strings

Strings stand between single or double quotes, one or three of them. Double quotes allow escapes;
three quotes allow newlines. Each reader gives the characters of the string and the text after it.
-/

namespace KeyRemap.Toml

def hexValue? (c : Char) : Option Nat :=
  if c.isDigit then some (c.toNat - '0'.toNat)
  else if 'a' ≤ c && c ≤ 'f' then some (c.toNat - 'a'.toNat + 10)
  else if 'A' ≤ c && c ≤ 'F' then some (c.toNat - 'A'.toNat + 10)
  else none

/-- The character of a code in hexadecimal digits. -/
def codeChar? (digits : List Char) : Option Char :=
  match digits.mapM hexValue? with
  | none => none
  | some values =>
    let code := values.foldl (fun code value => code * 16 + value) 0
    if code.isValidChar then some (Char.ofNat code) else none

/-- The character that a letter after a backslash stands for. -/
def escapedChar? : Char → Option Char
  | 'b' => some '\x08'
  | 't' => some '\t'
  | 'n' => some '\n'
  | 'f' => some '\x0c'
  | 'r' => some '\r'
  | '"' => some '"'
  | '\\' => some '\\'
  | _ => none

/-- The character of an escape and the text after it, given the text after its backslash. -/
def escapeSequence? (cs : List Char) : Option (Char × List Char) :=
  match cs with
  | 'u' :: rest =>
    if rest.length < 4 then none else (codeChar? (rest.take 4)).map fun c => (c, rest.drop 4)
  | 'U' :: rest =>
    if rest.length < 8 then none else (codeChar? (rest.take 8)).map fun c => (c, rest.drop 8)
  | c :: rest => (escapedChar? c).map fun c => (c, rest)
  | [] => none

/-- The rest of a string up to its double quote; the number bounds the steps. -/
def basicRest? : Nat → List Char → Option (List Char × List Char)
  | 0, _ => none
  | _, [] => none
  | _ + 1, '"' :: rest => some ([], rest)
  | steps + 1, '\\' :: rest =>
    match escapeSequence? rest with
    | none => none
    | some (c, rest) => (basicRest? steps rest).map fun (text, rest) => (c :: text, rest)
  | steps + 1, c :: rest =>
    if isCommentChar c then (basicRest? steps rest).map fun (text, rest) => (c :: text, rest)
    else none

/-- The rest of a string up to its single quote. -/
def literalRest? (cs : List Char) : Option (List Char × List Char) :=
  let inside := fun c => isCommentChar c && c != '\''
  match cs.dropWhile inside with
  | '\'' :: rest => some (cs.takeWhile inside, rest)
  | _ => none

/-- The quotes at the head of a text that belong to the string, and whether it ends with them: of a
run of three or more the last three close the string, and at most two stand before them. -/
def quoteRun (quote : Char) (cs : List Char) : Nat × Bool :=
  let run := (cs.takeWhile (· == quote)).length
  if run < 3 then (run, false) else (min (run - 3) 2, true)

/-- The rest of a string up to its three double quotes. A backslash at the end of a line takes the
newline and all blank space after it away. -/
def basicLinesRest? : Nat → List Char → Option (List Char × List Char)
  | 0, _ => none
  | _, [] => none
  | steps + 1, '"' :: rest =>
    match quoteRun '"' ('"' :: rest) with
    | (count, true) => some (List.replicate count '"', rest.drop (count + 2))
    | (count, false) =>
      (basicLinesRest? steps (rest.drop (count - 1))).map fun (text, rest) =>
        (List.replicate count '"' ++ text, rest)
  | steps + 1, '\\' :: rest =>
    match newline? (skipSpaces rest) with
    | some rest => basicLinesRest? steps (skipLines rest)
    | none =>
      match escapeSequence? rest with
      | none => none
      | some (c, rest) => (basicLinesRest? steps rest).map fun (text, rest) => (c :: text, rest)
  | steps + 1, c :: rest =>
    match newline? (c :: rest) with
    | some rest => (basicLinesRest? steps rest).map fun (text, rest) => ('\n' :: text, rest)
    | none =>
      if isCommentChar c then
        (basicLinesRest? steps rest).map fun (text, rest) => (c :: text, rest)
      else none
where
  /-- The text after spaces and newlines. -/
  skipLines : List Char → List Char
    | '\n' :: rest => skipLines rest
    | '\r' :: '\n' :: rest => skipLines rest
    | c :: rest => if isSpace c then skipLines rest else c :: rest
    | [] => []

/-- The rest of a string up to its three single quotes. -/
def literalLinesRest? : Nat → List Char → Option (List Char × List Char)
  | 0, _ => none
  | _, [] => none
  | steps + 1, '\'' :: rest =>
    match quoteRun '\'' ('\'' :: rest) with
    | (count, true) => some (List.replicate count '\'', rest.drop (count + 2))
    | (count, false) =>
      (literalLinesRest? steps (rest.drop (count - 1))).map fun (text, rest) =>
        (List.replicate count '\'' ++ text, rest)
  | steps + 1, c :: rest =>
    match newline? (c :: rest) with
    | some rest => (literalLinesRest? steps rest).map fun (text, rest) => ('\n' :: text, rest)
    | none =>
      if isCommentChar c then
        (literalLinesRest? steps rest).map fun (text, rest) => (c :: text, rest)
      else none

/-- The text after a newline right behind an opening delimiter, which does not count. -/
def dropNewline (cs : List Char) : List Char :=
  (newline? cs).getD cs

/-- A string on one line. -/
def lineString? : List Char → Option (List Char × List Char)
  | '"' :: rest => basicRest? (rest.length + 1) rest
  | '\'' :: rest => literalRest? rest
  | _ => none

def string? : List Char → Option (List Char × List Char)
  | '"' :: '"' :: '"' :: rest =>
    let rest := dropNewline rest
    basicLinesRest? (rest.length + 1) rest
  | '\'' :: '\'' :: '\'' :: rest =>
    let rest := dropNewline rest
    literalLinesRest? (rest.length + 1) rest
  | cs => lineString? cs

end KeyRemap.Toml
