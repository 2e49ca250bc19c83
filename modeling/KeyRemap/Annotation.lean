import KeyRemap.Text.Mark

/-!
# Annotations

An annotation is an `autogen` element somewhere on a line: an operation name between two pairs of
dashes, a space, and the parameters up to the closing tag. It does not run over a newline.
-/

namespace KeyRemap

/-- The operation name and the parameters of an annotation, as written. -/
structure Annotation where
  operation : String
  params : String
  deriving DecidableEq, Repr

namespace Annotation

/-- The tag and the dashes before an operation name. -/
def opening : List Char :=
  "<autogen>--".toList

/-- The dashes and the space between an operation name and its parameters. -/
def divider : List Char :=
  "-- ".toList

def closingTag : List Char :=
  "</autogen>".toList

/-- The annotation in what follows an opening: its name is as short and its parameters are as long
as they can be, and neither is empty. -/
def body? (cs : List Char) : Option Annotation :=
  match Text.cutInner divider cs with
  | none => none
  | some (name, rest) =>
    match Text.cutLast closingTag rest with
    | some (c :: params, _) =>
      some { operation := String.ofList name, params := String.ofList (c :: params) }
    | some ([], _) => none
    | none => none

/-- The annotation on a stretch without newline. It belongs to the first opening: where that one
has no annotation after it, no later one has. -/
def onStretch? (cs : List Char) : Option Annotation :=
  match Text.cutFirst opening cs with
  | none => none
  | some (_, rest) => body? rest

/-- The first annotation on a line. -/
def read? (line : String) : Option Annotation :=
  (line.toList.splitOn '\n').findSome? onStretch?

end Annotation

end KeyRemap
