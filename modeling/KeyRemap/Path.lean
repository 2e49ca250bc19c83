/-!
# Paths

A path is a text whose parts stand between slashes. Its components are its parts without the empty
ones and without single dots, a dot at the very start of a relative path apart.
-/

namespace KeyRemap

/-- A path as written. -/
structure Path where
  text : String
  deriving DecidableEq, Repr

namespace Path

def isAbsolute (path : Path) : Bool :=
  path.text.toList.head? == some '/'

/-- The parts between slashes. -/
def parts (path : Path) : List (List Char) :=
  path.text.toList.splitOn '/'

/-- Whether a part names no component. -/
def isInert (part : List Char) : Bool :=
  part.isEmpty || part == ['.']

/-- The start of a path that stands for a component of its own, the root or the dot, and the parts
of the rest. -/
def anatomy (path : Path) : List Char × List (List Char) :=
  match path.text.toList with
  | '/' :: rest => (['/'], rest.splitOn '/')
  | ['.'] => (['.'], [])
  | '.' :: '/' :: rest => (['.'], [] :: rest.splitOn '/')
  | cs => ([], cs.splitOn '/')

/-- Parts without the inert ones at the end. -/
def dropInert (parts : List (List Char)) : List (List Char) :=
  (parts.reverse.dropWhile isInert).reverse

/-- The path of the given start and parts. -/
def build (start : List Char) (parts : List (List Char)) : Path :=
  ⟨String.ofList (start ++ ['/'].intercalate parts)⟩

/-- The path without its last component. The root and the empty path have no parent. -/
def parent? (path : Path) : Option Path :=
  let (start, parts) := path.anatomy
  match dropInert parts with
  | [] => if start = ['.'] then some ⟨""⟩ else none
  | kept => some (build start (dropInert kept.dropLast))

/-- The last component, if it is a name. -/
def fileName? (path : Path) : Option (List Char) :=
  match (dropInert path.anatomy.2).getLast? with
  | none => none
  | some name => if name = ['.', '.'] then none else some name

/-- The file name up to its last dot; a dot at the start of a name does not count. -/
def fileStem? (path : Path) : Option String :=
  path.fileName?.map fun name =>
    match name.reverse.dropWhile (· ≠ '.') with
    | [] => String.ofList name
    | [_] => String.ofList name
    | _ :: stem => String.ofList stem.reverse

/-- A path seen from a directory. -/
def join (base path : Path) : Path :=
  if path.isAbsolute then path
  else if base.text.isEmpty || base.text.toList.getLast? == some '/' then
    ⟨base.text ++ path.text⟩
  else ⟨base.text ++ "/" ++ path.text⟩

/-- At most the given number of a path's ancestors, itself first. -/
def ancestorsUpTo : Nat → Path → List Path
  | 0, _ => []
  | count + 1, path =>
    path ::
      match path.parent? with
      | none => []
      | some parent => ancestorsUpTo count parent

/-- The path, its parent, and so on. A parent is shorter than its path, so that the length of the
text bounds their number. -/
def ancestors (path : Path) : List Path :=
  ancestorsUpTo (path.text.length + 1) path

end Path

end KeyRemap
