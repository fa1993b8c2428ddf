import Gatehouse.Files.Path
import Gatehouse.OsError
import Gatehouse.Text.Utf8

/-!
# File trees

A tree of directories and files, as far as the bastion looks at it: creating a directory together
with those above it, opening a file so that what is written goes to its end, and writing to it.
-/

namespace Gatehouse.Files

/-- The components of an absolute path without dots, outermost first. -/
abbrev Place := List String

/-- What lies at a place. -/
inductive Node where
  | directory
  | file (content : Bytes)
deriving DecidableEq, Repr

/-- What a node is after bytes have been written to its end. Nothing is written to a directory. -/
def Node.append : Node → Bytes → Node
  | directory, _ => directory
  | file content, bytes => file (content ++ bytes)

/-- A file tree: what lies where, the root directory apart, and the directory that relative paths
start from. -/
structure Tree where
  nodes : List (Place × Node)
  working : Place

namespace Tree

/-- What lies at a place. -/
def node? (t : Tree) (place : Place) : Option Node :=
  if place.isEmpty then some .directory else t.nodes.lookup place

/-- What is in the file at a place. -/
def content? (t : Tree) (place : Place) : Option Bytes :=
  match t.node? place with
  | some (.file content) => some content
  | some .directory | none => none

/-- Puts something at a place. -/
def add (t : Tree) (place : Place) (node : Node) : Tree :=
  { t with nodes := t.nodes ++ [(place, node)] }

/-- The longest name of a file, in bytes. -/
def nameLimit : Nat := 255

/-- The longest path, in bytes. -/
def pathLimit : Nat := 4095

/-- Follows segments from a directory. Every segment has to start from a directory. -/
def walk (t : Tree) : Place → List String → Except OsError Place
  | place, [] => .ok place
  | place, c :: more =>
    match t.node? place with
    | none => .error .notFound
    | some (.file _) => .error .notADirectory
    | some .directory =>
      if c = "." then t.walk place more
      else if c = ".." then t.walk place.dropLast more
      else if Text.utf8Size c ≤ nameLimit then t.walk (place ++ [c]) more
      else .error .nameTooLong

/-- The place a path leads to, which lies in a directory but need not hold anything yet. -/
def place (t : Tree) (p : Path) : Except OsError Place :=
  if p.text.contains '\x00' then .error .zeroInName
  else if p.isEmpty then .error .notFound
  else if pathLimit < Text.utf8Size p.text then .error .nameTooLong
  else t.walk (if p.isAbsolute then [] else t.working) p.segments

/-- Whether a path leads to a directory. -/
def isDirectory (t : Tree) (p : Path) : Bool :=
  match t.place p with
  | .ok place => t.node? place == some .directory
  | .error _ => false

/-- Creates one directory. -/
def makeDirectory (t : Tree) (p : Path) : Except OsError Tree := do
  let place ← t.place p
  if (t.node? place).isSome then .error .alreadyExists else .ok (t.add place .directory)

/-- Creates a directory, and those above it that are missing, for paths of fewer than
`depth` components. What has been created stays also when a later step fails. -/
def makeDirectories : (depth : Nat) → Tree → Path → Tree × Except OsError Unit
  | 0, t, _ => (t, .ok ())
  | depth + 1, t, p =>
    if p.isEmpty then (t, .ok ())
    else
      match t.makeDirectory p with
      | .ok t => (t, .ok ())
      | .error .notFound =>
        match p.parent? with
        | none => (t, .error .notFound)
        | some above =>
          match makeDirectories depth t above with
          | (t, .error e) => (t, .error e)
          | (t, .ok ()) =>
            match t.makeDirectory p with
            | .ok t => (t, .ok ())
            | .error e => if t.isDirectory p then (t, .ok ()) else (t, .error e)
      | .error e => if t.isDirectory p then (t, .ok ()) else (t, .error e)

/-- Creates a directory, and those above it that are missing. -/
def ensureDirectory (t : Tree) (p : Path) : Tree × Except OsError Unit :=
  t.makeDirectories (p.components.length + 1) p

/-- Opens a file for writing, creating it if it is missing; gives also where it lies. What ends with
a slash can only be a directory. -/
def openFile (t : Tree) (p : Path) : Except OsError (Tree × Place) := do
  let place ← t.place p
  if p.isClosed then .error .isADirectory
  else
    match t.node? place with
    | some .directory => .error .isADirectory
    | some (.file _) => .ok (t, place)
    | none => .ok (t.add place (.file []), place)

/-- Creates a file if it is missing. -/
def ensureFile (t : Tree) (p : Path) : Except OsError Tree :=
  (t.openFile p).map Prod.fst

/-- Writes at the end of the file at a place. -/
def append (t : Tree) (place : Place) (bytes : Bytes) : Tree :=
  { t with nodes := t.nodes.map fun (there, node) =>
      (there, if there = place then node.append bytes else node) }

/-- The places below a directory, each with what lies there. -/
def below (t : Tree) (directory : Place) : List (Place × Node) :=
  t.nodes.filterMap fun (place, node) =>
    if directory.isPrefixOf place && place ≠ directory then
      some (place.drop directory.length, node)
    else none

end Tree

end Gatehouse.Files
