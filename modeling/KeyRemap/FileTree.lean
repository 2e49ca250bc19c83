import KeyRemap.OsError
import KeyRemap.Path

/-!
# File trees

A file tree is a file system as a value: which places hold a directory or a file. A place is the
list of names that leads to it from the root. Paths are walked part by part, and each place on the
way has to be a directory.
-/

namespace KeyRemap

/-- What a place holds. -/
inductive Node where
  | directory
  | file (bytes : ByteArray)

instance : DecidableEq Node
  | .directory, .directory => isTrue rfl
  | .directory, .file _ => isFalse nofun
  | .file _, .directory => isFalse nofun
  | .file a, .file b =>
    decidable_of_iff (a.data = b.data) ⟨fun h => congrArg Node.file (ByteArray.ext h), by simp_all⟩

/-- A place in a file tree. -/
abbrev Place := List String

/-- The places that hold something, and the place from which relative paths are walked. -/
structure FileTree where
  nodes : List (Place × Node) := []
  current : Place := []

namespace FileTree

/-- What a place holds; the root is a directory. -/
def node? (tree : FileTree) (place : Place) : Option Node :=
  if place = [] then some .directory else tree.nodes.lookup place

/-- The entries with one place set or replaced. -/
def putNode (place : Place) (node : Node) : List (Place × Node) → List (Place × Node)
  | [] => [(place, node)]
  | (other, old) :: rest =>
    if other = place then (place, node) :: rest else (other, old) :: putNode place node rest

/-- The tree with one place set or replaced. -/
def put (tree : FileTree) (place : Place) (node : Node) : FileTree :=
  { tree with nodes := putNode place node tree.nodes }

/-- The place to which the parts of a path lead. Every place that is left has to be a directory; the
last need not exist. -/
def walk (tree : FileTree) : Place → List String → Except OsError Place
  | place, [] => .ok place
  | place, part :: parts =>
    match tree.node? place with
    | none => .error .notFound
    | some (.file _) => .error .notADirectory
    | some .directory =>
      if part = "" || part = "." then tree.walk place parts
      else if part = ".." then tree.walk place.dropLast parts
      else tree.walk (place ++ [part]) parts

/-- The place from which a path is walked. -/
def start (tree : FileTree) (path : Path) : Place :=
  if path.isAbsolute then [] else tree.current

/-- The parts of a path as names. -/
def partsOf (path : Path) : List String :=
  path.parts.map String.ofList

/-- The parts of a path without the empty ones that slashes at its end make. -/
def partsBeforeSlashes (path : Path) : List String :=
  ((partsOf path).reverse.dropWhile (· = "")).reverse

/-- The place of a path. A path without text has none. -/
def place (tree : FileTree) (path : Path) : Except OsError Place :=
  if path.text = "" then .error .notFound else tree.walk (tree.start path) (partsOf path)

/-- The place of a path, whether or not slashes stand at its end. -/
def placeBeforeSlashes (tree : FileTree) (path : Path) : Except OsError Place :=
  if path.text = "" then .error .notFound
  else tree.walk (tree.start path) (partsBeforeSlashes path)

def isDirectory (tree : FileTree) (path : Path) : Bool :=
  match tree.place path with
  | .error _ => false
  | .ok place => tree.node? place == some .directory

def read (tree : FileTree) (path : Path) : Except OsError String :=
  match tree.place path with
  | .error e => .error e
  | .ok place =>
    match tree.node? place with
    | none => .error .notFound
    | some .directory => .error .isADirectory
    | some (.file bytes) =>
      match String.fromUTF8? bytes with
      | none => .error .invalidText
      | some text => .ok text

/-- Whether the last part of a path names a place to create. -/
def endsInName (parts : List String) : Bool :=
  match parts.getLast? with
  | none => false
  | some part => part != "." && part != ".."

def makeDirectory (tree : FileTree) (path : Path) : Except OsError FileTree :=
  match tree.placeBeforeSlashes path with
  | .error e => .error e
  | .ok place =>
    if !endsInName (partsBeforeSlashes path) || (tree.node? place).isSome then .error .fileExists
    else .ok (tree.put place .directory)

/-- Makes the first directory of a list after those behind it, which are its ancestors. Directories
that are there are left alone. -/
def makeDirectories (tree : FileTree) : List Path → Except OsError Unit × FileTree
  | [] => (.error .notFound, tree)
  | path :: ancestors =>
    if path.text = "" then (.ok (), tree)
    else
      match tree.makeDirectory path with
      | .ok tree => (.ok (), tree)
      | .error .notFound =>
        match tree.makeDirectories ancestors with
        | (.error e, tree) => (.error e, tree)
        | (.ok (), tree) =>
          match tree.makeDirectory path with
          | .ok tree => (.ok (), tree)
          | .error e => if tree.isDirectory path then (.ok (), tree) else (.error e, tree)
      | .error e => if tree.isDirectory path then (.ok (), tree) else (.error e, tree)

/-- The tree with a file written, which need not have been there. -/
def write (tree : FileTree) (path : Path) (text : String) : Except OsError FileTree :=
  match tree.placeBeforeSlashes path with
  | .error e => .error e
  | .ok place =>
    if path.text.toList.getLast? == some '/' || !endsInName (partsBeforeSlashes path) ||
        tree.node? place == some .directory then
      .error .isADirectory
    else .ok (tree.put place (.file text.toUTF8))

end FileTree

end KeyRemap
