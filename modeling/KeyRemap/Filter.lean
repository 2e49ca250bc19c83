import KeyRemap.Operand.Table
import KeyRemap.Text.Pieces
import KeyRemap.Text.Mark

/-!
# Filters and guards

A filter line stands alone on its line: an opening tag, a comma-separated list of values and the
matching closing tag. It says for which applications, keyboards or configurations a rule holds. The
guard of a rule collects its filter lines and gives the code that checks them.
-/

namespace KeyRemap

/-- The tags of filter lines. -/
inductive FilterKind where
  | applicationOnly
  | applicationNot
  | keyboardTypeOnly
  | keyboardTypeNot
  | configOnly
  | configNot
  deriving DecidableEq, Repr

namespace FilterKind

def all : List FilterKind :=
  [applicationOnly, applicationNot, keyboardTypeOnly, keyboardTypeNot, configOnly, configNot]

def tag : FilterKind → String
  | applicationOnly => "only"
  | applicationNot => "not"
  | keyboardTypeOnly => "keyboardtype_only"
  | keyboardTypeNot => "keyboardtype_not"
  | configOnly => "config_only"
  | configNot => "config_not"

def ofTag? (tag : String) : Option FilterKind :=
  all.find? (fun kind => kind.tag == tag)

/-- The constant that starts the filter's array at run time. -/
def marker : FilterKind → String
  | applicationOnly => "BRIDGE_FILTERTYPE_APPLICATION_ONLY"
  | applicationNot => "BRIDGE_FILTERTYPE_APPLICATION_NOT"
  | keyboardTypeOnly => "BRIDGE_FILTERTYPE_KEYBOARDTYPE_ONLY"
  | keyboardTypeNot => "BRIDGE_FILTERTYPE_KEYBOARDTYPE_NOT"
  | configOnly => "BRIDGE_FILTERTYPE_CONFIG_ONLY"
  | configNot => "BRIDGE_FILTERTYPE_CONFIG_NOT"

/-- The scope of values that name none. -/
def scope : FilterKind → String
  | applicationOnly | applicationNot => "ApplicationType"
  | keyboardTypeOnly | keyboardTypeNot => "KeyboardType"
  | configOnly | configNot => "ConfigIndex"

end FilterKind

/-- One filter line: its kind and its values. -/
structure FilterClause where
  kind : FilterKind
  values : List String
  deriving DecidableEq, Repr

namespace FilterClause

/-- A character of a tag name. -/
def isTagChar (c : Char) : Bool :=
  c.isLower || c == '_'

/-- The tag name before the next closing angle bracket, and what follows the bracket. -/
def tagName? (cs : List Char) : Option (List Char × List Char) :=
  match cs.takeWhile isTagChar, Text.after? ['>'] (cs.dropWhile isTagChar) with
  | [], _ => none
  | _ :: _, none => none
  | c :: name, some rest => some (c :: name, rest)

/-- Body and closing tag name in what follows an opening tag. A tag name holds no angle bracket, so
the closing tag starts at the last mark of one; the body holds no newline, and only blanks follow
the tag. -/
def bodyAndClosing? (cs : List Char) : Option (List Char × List Char) :=
  match Text.cutLast "</".toList cs with
  | none => none
  | some (body, rest) =>
    match tagName? rest with
    | none => none
    | some (closing, rest) =>
      if body.contains '\n' || !rest.all Text.isBlank then none else some (body, closing)

/-- Opening tag name, body and closing tag name of a line that consists of one element. -/
def element? (line : List Char) : Option (List Char × List Char × List Char) :=
  match Text.after? ['<'] (Text.trimStart line) with
  | none => none
  | some cs =>
    match tagName? cs with
    | none => none
    | some (opening, cs) =>
      (bodyAndClosing? cs).map fun (body, closing) => (opening, body, closing)

/-- The clause of a filter line: one element with equal tags, one of the filter tags, with at least
one value that is not blank. -/
def read? (line : String) : Option FilterClause :=
  match element? line.toList with
  | none => none
  | some (opening, body, closing) =>
    if opening ≠ closing then none
    else
      match FilterKind.ofTag? (String.ofList opening), Text.pieces ',' body with
      | none, _ => none
      | some _, [] => none
      | some kind, value :: values => some { kind, values := value :: values }

/-- A value as it stands in the code: within the kind's scope unless it names a scope itself. -/
def scopedValue (kind : FilterKind) (value : String) : String :=
  if (Text.cutFirst "::".toList value.toList).isSome then value else kind.scope ++ "::" ++ value

/-- The elements of the filter's array. -/
def elements (clause : FilterClause) : List String :=
  constantElement clause.kind.marker :: clause.values.map (scopedValue clause.kind)

/-- The code that leaves the enclosing block when the filter blocks the rule. -/
def code (clause : FilterClause) : String :=
  "\x7b\n  const unsigned int filter[] = \x7b " ++ String.intercalate "," clause.elements ++
    " \x7d;\n" ++
    "  if (RemapFilter::isblocked(filter, sizeof(filter) / sizeof(filter[0]))) break;\n\x7d\n"

end FilterClause

/-- What a rule does with filter lines: nothing at all, or collect their clauses. -/
inductive Guard where
  | none
  | filter (clauses : List FilterClause)
  deriving DecidableEq, Repr

namespace Guard

/-- The guard after it has consumed a line, if the line is for it. -/
def offer (line : String) : Guard → Option Guard
  | none => Option.none
  | filter clauses => (FilterClause.read? line).map fun clause => filter (clauses ++ [clause])

def clauses : Guard → List FilterClause
  | none => []
  | filter clauses => clauses

def code (guard : Guard) : String :=
  String.join (guard.clauses.map FilterClause.code)

end Guard

/-- Which guard new rules start with. -/
inductive GuardStyle where
  | none
  | filter
  deriving DecidableEq, Repr

def GuardStyle.fresh : GuardStyle → Guard
  | none => .none
  | filter => .filter []

end KeyRemap
