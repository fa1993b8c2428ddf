/-!
# Paths

Paths as they are written, what they are made of, and the directory a path lies in. What lies
between two slashes in a row means nothing. A single dot stands for the directory that the path has
led to, so it need not count, but a path that ends with one can only be a directory.
-/

namespace Gatehouse.Files

/-- A path as it is written. -/
structure Path where
  text : String
deriving DecidableEq, Repr

namespace Path

/-- Splits at every slash. -/
def splitSlash (cs : List Char) : List (List Char) :=
  cs.foldr (fun c parts =>
    if c = '/' then [] :: parts
    else match parts with
      | part :: more => (c :: part) :: more
      | [] => [[c]]) [[]]

/-- Whether the path starts at the root. -/
def isAbsolute (p : Path) : Bool :=
  p.text.startsWith "/"

/-- Whether the path ends with a slash. -/
def isClosed (p : Path) : Bool :=
  p.text.endsWith "/"

/-- What stands between slashes. -/
def segments (p : Path) : List String :=
  ((splitSlash p.text.toList).filter fun part => !part.isEmpty).map String.ofList

/-- The segments that count: single dots do only where a relative path starts with one. -/
def components (p : Path) : List String :=
  match p.segments with
  | "." :: more => (if p.isAbsolute then [] else ["."]) ++ more.filter (· ≠ ".")
  | segments => segments.filter (· ≠ ".")

/-- The path without its last component. The root and the empty path have none. -/
def parent? (p : Path) : Option Path :=
  if p.components.isEmpty then none
  else some ⟨(if p.isAbsolute then "/" else "") ++ "/".intercalate p.components.dropLast⟩

/-- Whether this is the empty path. -/
def isEmpty (p : Path) : Bool :=
  p.text = ""

end Path

/-- The path of a name below a directory. -/
def join (directory name : String) : String :=
  if name.startsWith "/" || directory = "" then name
  else if directory.endsWith "/" then directory ++ name
  else directory ++ "/" ++ name

end Gatehouse.Files
