import KeyRemap.Toml.Quoted

/-!
# Layout of a file

Spaces, line ends and comments. Each function takes the text from some place on and gives the text
that follows.
-/

namespace KeyRemap.Toml

/-- A space or a tab. -/
def isSpace (c : Char) : Bool :=
  c == ' ' || c == '\t'

/-- A character that may stand in a comment: all but the controls, tab apart. -/
def isCommentChar (c : Char) : Bool :=
  !isControl c || c == '\t'

/-- The text after spaces and tabs. -/
def skipSpaces (cs : List Char) : List Char :=
  cs.dropWhile isSpace

/-- The text after a newline, before which one carriage return may stand. -/
def newline? : List Char → Option (List Char)
  | '\n' :: rest => some rest
  | '\r' :: '\n' :: rest => some rest
  | _ => none

/-- The text after the end of a line: spaces, a comment if there is one, and a newline or nothing
more. -/
def lineEnd? (cs : List Char) : Option (List Char) :=
  let cs :=
    match skipSpaces cs with
    | '#' :: rest => rest.dropWhile isCommentChar
    | cs => cs
  if cs.isEmpty then some [] else newline? cs

/-- The text after spaces, newlines and comments. -/
def skipFiller (inComment : Bool) : List Char → List Char
  | [] => []
  | '\n' :: rest => skipFiller false rest
  | '\r' :: '\n' :: rest => skipFiller false rest
  | c :: rest =>
    if inComment then if isCommentChar c then skipFiller true rest else c :: rest
    else if isSpace c then skipFiller false rest
    else if c = '#' then skipFiller true rest
    else c :: rest

end KeyRemap.Toml
