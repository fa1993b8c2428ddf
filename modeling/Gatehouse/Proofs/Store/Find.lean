import Gatehouse.Store.Queries
import Mathlib.Tactic.Common

/-!
# What searching a table finds

A search finds the first row that fulfils its condition, and only after all rows before it have been
decoded. It fails at the first row that does not decode, unless it has found one before that.
-/

namespace Gatehouse.Store

variable {α : Type} [Record α] {condition : α → Bool}

theorem findIn_cons (id : Id) (bytes : Bytes) (rest : Rows) :
    findIn condition ((id, bytes) :: rest) =
      match (decode bytes : Except StoreError α) with
      | .error e => .error e
      | .ok a => if condition a then .ok (some a) else findIn condition rest := by
  rw [findIn]
  rcases (decode bytes : Except StoreError α) with e | a
  · rfl
  · rfl

/-- What is found is a row's record, and fulfils the condition. -/
theorem findIn_some {rows : Rows} {a : α} (h : findIn condition rows = .ok (some a)) :
    ∃ row ∈ rows, decode row.2 = .ok a ∧ condition a = true := by
  induction rows with
  | nil => cases h
  | cons row rest ih =>
    obtain ⟨id, bytes⟩ := row
    rw [findIn_cons] at h
    rcases hbytes : (decode bytes : Except StoreError α) with e | b
    · rw [hbytes] at h
      cases h
    · rw [hbytes] at h
      dsimp only at h
      split_ifs at h with hb
      · cases h
        exact ⟨(id, bytes), List.mem_cons_self, hbytes, hb⟩
      · obtain ⟨row, hmem, hrow⟩ := ih h
        exact ⟨row, List.mem_cons_of_mem _ hmem, hrow⟩

/-- If nothing is found, no row's record fulfils the condition. -/
theorem findIn_eq_none {rows : Rows}
    (h : findIn condition rows = .ok none) :
    ∀ row ∈ rows, ∀ a, decode row.2 = .ok a → condition a = false := by
  induction rows with
  | nil => exact nofun
  | cons first rest ih =>
    obtain ⟨key, old⟩ := first
    rw [findIn_cons] at h
    rcases hfirst : (decode old : Except StoreError α) with e | b
    · rw [hfirst] at h
      cases h
    rw [hfirst] at h
    dsimp only at h
    split_ifs at h with hb
    · cases h
    intro row hrow a ha
    rcases List.mem_cons.mp hrow with rfl | hmem
    · rw [hfirst] at ha
      cases ha
      exact eq_false_of_ne_true hb
    · exact ih h row hmem a ha

/-- What several look-ups find depends on each of them alone. -/
theorem getMany_congr {s s' : Store} {t t' : Table} (h : ∀ id, s'.get α t' id = s.get α t id)
    (ids : List Id) : s'.getMany α t' ids = s.getMany α t ids := by
  induction ids with
  | nil => rfl
  | cons id ids ih => rw [getMany, getMany, ih, h]

end Gatehouse.Store
