import Gatehouse.Files.Path
import Mathlib.Data.List.Basic
import Mathlib.Tactic.Common

/-!
# Paths below a directory

`components_join`: a name that has no slash, and that stands neither for nothing nor for the directory
itself, adds one component to those of the directory it is joined to, and leaves the path as absolute or
relative as the directory is (`isAbsolute_join`).

Proof. Splitting at slashes goes through a slash (`splitSlash_slash`), so that the segments of the joined
path are those of the directory with the name behind them, whether or not the directory ends with a slash.
-/

namespace Gatehouse.Files

/-- The name of an entry of a directory: it has no separator and is no path to somewhere else. -/
structure IsEntryName (name : String) : Prop where
  noSlash : '/' ∉ name.toList
  ne_empty : name ≠ ""
  ne_dot : name ≠ "."
  ne_dots : name ≠ ".."

namespace Path

/-! ### Segments -/

theorem splitSlash_cons (c : Char) (cs : List Char) : splitSlash (c :: cs) =
    if c = '/' then [] :: splitSlash cs
    else match splitSlash cs with
      | part :: more => (c :: part) :: more
      | [] => [[c]] :=
  rfl

theorem splitSlash_ne_nil (cs : List Char) : splitSlash cs ≠ [] := by
  cases cs with
  | nil => exact List.cons_ne_nil _ _
  | cons c cs =>
    rw [splitSlash_cons]
    split_ifs
    · exact List.cons_ne_nil _ _
    · split <;> exact List.cons_ne_nil _ _

theorem splitSlash_slash (front back : List Char) :
    splitSlash (front ++ '/' :: back) = splitSlash front ++ splitSlash back := by
  induction front with
  | nil => rfl
  | cons c front ih =>
    rw [List.cons_append, splitSlash_cons, splitSlash_cons, ih]
    split_ifs
    · rfl
    · rcases hfront : splitSlash front with _ | ⟨part, more⟩
      · exact absurd hfront (splitSlash_ne_nil front)
      · rfl

theorem splitSlash_of_noSlash {cs : List Char} (h : '/' ∉ cs) : splitSlash cs = [cs] := by
  induction cs with
  | nil => rfl
  | cons c cs ih =>
    rw [List.mem_cons, not_or] at h
    rw [splitSlash_cons, if_neg fun heq => h.1 heq.symm, ih h.2]

theorem segments_slash {p front back : Path} (h : p.text.toList = front.text.toList ++ '/' :: back.text.toList) :
    p.segments = front.segments ++ back.segments := by
  rw [segments, h, splitSlash_slash, List.filter_append, List.map_append]
  rfl

theorem segments_of_entryName {name : String} (h : IsEntryName name) : (mk name).segments = [name] := by
  have hne : name.toList ≠ [] := fun hnil => h.ne_empty (String.toList_eq_nil_iff.mp hnil)
  rw [segments, splitSlash_of_noSlash h.noSlash]
  simp [hne]

/-! ### Components -/

theorem components_of_segments {p q : Path} {name : String} (h : p.segments = q.segments ++ [name])
    (habsolute : p.isAbsolute = q.isAbsolute) (hname : name ≠ ".") :
    p.components = q.components ++ [name] := by
  unfold components
  rw [h, habsolute]
  rcases q.segments with _ | ⟨first, more⟩
  · simp [hname]
  · by_cases hfirst : first = "."
    · subst hfirst
      simp [hname]
    · simp [hfirst, hname]

end Path

/-! ### Joining -/

variable {directory name : String}

theorem isAbsolute_iff {p : Path} : p.isAbsolute = true ↔ p.text.toList.head? = some '/' := by
  rw [Path.isAbsolute, String.startsWith_string_iff]
  rcases p.text.toList with _ | ⟨c, cs⟩
  · simp
  · rw [show "/".toList = ['/'] from rfl, List.cons_prefix_cons, List.head?_cons, Option.some.injEq, eq_comm]
    exact and_iff_left (List.nil_prefix)

theorem IsEntryName.isRelative (h : IsEntryName name) : (Path.mk name).isAbsolute = false := by
  rw [← Bool.not_eq_true, isAbsolute_iff]
  exact fun hhead => h.noSlash (List.mem_of_mem_head? hhead)

/-- What a name is joined to: nothing at all, a text that ends with a slash, or any other text. -/
theorem join_cases (directory : String) (h : IsEntryName name) :
    (directory = "" ∧ join directory name = name) ∨
    (∃ front, directory.toList = front ++ ['/'] ∧
      (join directory name).toList = front ++ '/' :: name.toList) ∨
    (directory ≠ "" ∧ (join directory name).toList = directory.toList ++ '/' :: name.toList) := by
  have hrelative : name.startsWith "/" = false := h.isRelative
  unfold join
  by_cases hempty : directory = ""
  · exact .inl ⟨hempty, by rw [hempty, hrelative]; rfl⟩
  rw [hrelative, Bool.false_or, if_neg (by simpa using hempty)]
  split_ifs with hclosed
  · obtain ⟨front, hfront⟩ := String.Slice.endsWith_string_iff.mp hclosed
    rw [String.copy_toSlice] at hfront
    refine .inr (.inl ⟨front, hfront.symm, ?_⟩)
    rw [String.toList_append, ← hfront, List.append_assoc]
    rfl
  · refine .inr (.inr ⟨hempty, ?_⟩)
    rw [String.toList_append, String.toList_append, List.append_assoc]
    rfl

theorem isAbsolute_join (h : IsEntryName name) :
    (Path.mk (join directory name)).isAbsolute = (Path.mk directory).isAbsolute := by
  rcases join_cases directory h with
    ⟨rfl, hjoin⟩ | ⟨front, hdirectory, hjoin⟩ | ⟨hne, hjoin⟩
  · rw [hjoin, h.isRelative]
    rfl
  · rw [Bool.eq_iff_iff, isAbsolute_iff, isAbsolute_iff, hjoin, hdirectory]
    cases front <;> rfl
  · rw [Bool.eq_iff_iff, isAbsolute_iff, isAbsolute_iff, hjoin,
      List.head?_append_of_ne_nil _ fun hnil => hne (String.toList_eq_nil_iff.mp hnil)]

/-- The segments of a joined path are those of the directory, with the name behind them. -/
theorem segments_join (h : IsEntryName name) :
    (Path.mk (join directory name)).segments = (Path.mk directory).segments ++ [name] := by
  have hname := Path.segments_of_entryName h
  rcases join_cases directory h with
    ⟨rfl, hjoin⟩ | ⟨front, hdirectory, hjoin⟩ | ⟨-, hjoin⟩
  · rw [hjoin, hname]
    rfl
  · have hfront : (Path.mk directory).segments = (Path.mk (String.ofList front)).segments := by
      have hslash : (Path.mk directory).segments =
          (Path.mk (String.ofList front)).segments ++ (Path.mk "").segments :=
        Path.segments_slash (by rw [String.toList_ofList]; exact hdirectory)
      exact hslash.trans (List.append_nil _)
    rw [hfront, ← hname]
    exact Path.segments_slash (by rw [String.toList_ofList]; exact hjoin)
  · rw [← hname]
    exact Path.segments_slash hjoin

theorem components_join (h : IsEntryName name) :
    (Path.mk (join directory name)).components = (Path.mk directory).components ++ [name] :=
  Path.components_of_segments (segments_join h) (isAbsolute_join h) h.ne_dot

end Gatehouse.Files
