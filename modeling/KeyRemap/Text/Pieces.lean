import KeyRemap.Text.Blank

/-!
# Cutting a text

A text is cut at a separator character into fields and at newlines into lines.
-/

namespace KeyRemap.Text

/-- The stretches of a text between the occurrences of a separator; there is always one more
stretch than there are separators. -/
def fields (sep : Char) (s : String) : List String :=
  (s.toList.splitOn sep).map String.ofList

/-- The fields of a text, trimmed, without those that are blank. -/
def pieces (sep : Char) (cs : List Char) : List String :=
  (((cs.splitOn sep).map trim).filter (fun piece => !piece.isEmpty)).map String.ofList

/-- A line without the one carriage return at its end. -/
def dropReturn (line : List Char) : List Char :=
  if line.getLast? = some '\r' then line.dropLast else line

/-- The lines of a text. A newline ends a line, together with one carriage return right before it;
what follows the last newline is a line of its own unless it is empty, and keeps its carriage
return. -/
def lines (s : String) : List String :=
  let stretches := s.toList.splitOn '\n'
  let ended := stretches.dropLast.map dropReturn
  let rest := (stretches.getLast?.toList).filter (fun line => !line.isEmpty)
  (ended ++ rest).map String.ofList

end KeyRemap.Text
