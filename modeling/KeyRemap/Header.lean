import KeyRemap.Text.Mark

/-!
# Rule headers

A line with an `identifier` element opens a rule. The rule's name is the text of the element
without the blanks around it. Where the closing tag follows nothing but blanks, the last of them is
left as the name.
-/

namespace KeyRemap.Header

def openingTag : List Char :=
  "<identifier>".toList

def closingTag : List Char :=
  "</identifier>".toList

/-- The name in what follows an opening tag: the text, from its first character that is not blank,
up to the first closing tag after that character. -/
def name? (cs : List Char) : Option (List Char) :=
  let text := Text.trimStart cs
  match Text.cutInner closingTag text, Text.after? closingTag text with
  | some (name, _), _ => some (Text.trimEnd name)
  | none, some _ => ((cs.takeWhile Text.isBlank).getLast?).map fun blank => [blank]
  | none, none => none

/-- The name of the rule that a line opens. A line holds no newline, so where its first opening tag
has no name after it, no other has. -/
def read? (line : String) : Option String :=
  match Text.cutFirst openingTag line.toList with
  | none => none
  | some (_, rest) => (name? rest).map String.ofList

end KeyRemap.Header
