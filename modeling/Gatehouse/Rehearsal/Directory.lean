import Gatehouse.Files.Tree

/-!
# A directory for rehearsals

Scripts call a fresh directory by a short name; here it is a directory of an otherwise empty tree.
-/

namespace Gatehouse.Rehearsal.Directory

/-- The name of the directory. -/
def name : String := "rehearsal-directory"

/-- How scripts call the directory. -/
def shortName : String := "$T"

/-- A text with the directory's path instead of its short name. -/
def expand (text : String) : String :=
  text.replace shortName ("/" ++ name)

/-- A text with the directory's short name instead of its path. -/
def shorten (text : String) : String :=
  text.replace ("/" ++ name) shortName

/-- The tree with the directory, and with empty files, each in a directory that exists. -/
def tree (files : List String) : Files.Tree :=
  files.foldl (fun t file =>
    let path : Files.Path := ⟨expand file⟩
    let t := match path.parent? with
      | some above => (t.ensureDirectory above).1
      | none => t
    (t.ensureFile path).toOption.getD t)
    { nodes := [([name], .directory), (["work"], .directory)], working := ["work"] }

/-- What lies in the directory, in order; directories end with a slash. -/
def listing (t : Files.Tree) : List String :=
  let names := (t.below [name]).map fun (place, node) =>
    shortName ++ "/" ++ "/".intercalate place ++ if node = .directory then "/" else ""
  names.mergeSort fun a b => a ≤ b

end Gatehouse.Rehearsal.Directory
