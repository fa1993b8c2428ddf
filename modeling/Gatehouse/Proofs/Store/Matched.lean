import Gatehouse.Proofs.Store.Find
import Gatehouse.Proofs.Store.Reachable

/-!
# Reading stores with related rows

`getMany_matched`, `find_matched`: if two tables have the same identifiers in the same order, with related
records or the same failures to read them, then whatever is read of the one and of the other is related, or
fails alike.
-/

namespace Gatehouse

/-- Two computations fail with the same error, or come to values in a relation. -/
inductive Matched {ε α β : Type} (R : α → β → Prop) : Except ε α → Except ε β → Prop where
  | error (e : ε) : Matched R (.error e) (.error e)
  | ok {a : α} {b : β} (h : R a b) : Matched R (.ok a) (.ok b)

section

variable {ε α β : Type} {R : α → β → Prop}

theorem Matched.cases {x : Except ε α} {y : Except ε β} (h : Matched R x y) :
    (∃ e, x = .error e ∧ y = .error e) ∨ ∃ a b, x = .ok a ∧ y = .ok b ∧ R a b := by
  cases h with
  | error e => exact .inl ⟨e, rfl, rfl⟩
  | ok h => exact .inr ⟨_, _, rfl, rfl, h⟩

/-- What two look-ups that match come to. -/
theorem Matched.lookup_cases {x : Except ε (Option α)} {y : Except ε (Option β)}
    (h : Matched (Option.Rel R) x y) :
    (∃ e, x = .error e ∧ y = .error e) ∨ (x = .ok none ∧ y = .ok none) ∨
      ∃ a b, x = .ok (some a) ∧ y = .ok (some b) ∧ R a b := by
  rcases h.cases with herror | ⟨_, _, rfl, rfl, hfound⟩
  · exact .inl herror
  · cases hfound with
    | none => exact .inr (.inl ⟨rfl, rfl⟩)
    | some hab => exact .inr (.inr ⟨_, _, rfl, rfl, hab⟩)

end

/-! ### Stores with related rows -/

namespace Store

variable {α : Type} [Record α] {R R' : α → α → Prop} {s s' : Store} {t : Table}

/-- Two rows have the same identifier, and related records or none. -/
def RowsMatch (R : α → α → Prop) (row row' : Id × Bytes) : Prop :=
  row'.1 = row.1 ∧ Matched R (decode row.2) (decode row'.2)

theorem RowsMatch.imp (h : ∀ a a', R a a' → R' a a') {row row' : Id × Bytes} (hrow : RowsMatch R row row') :
    RowsMatch R' row row' := by
  refine ⟨hrow.1, ?_⟩
  rcases hrow.2.cases with ⟨e, hx, hy⟩ | ⟨a, a', hx, hy, hrecord⟩
  · rw [hx, hy]
    exact .error e
  · rw [hx, hy]
    exact .ok (h a a' hrecord)

theorem rowsMatch_self (h : ∀ a, R a a) (row : Id × Bytes) : RowsMatch R row row := by
  refine ⟨rfl, ?_⟩
  rcases (decode row.2 : Except StoreError α) with e | a
  · exact .error e
  · exact .ok (h a)

theorem get_matched (h : List.Forall₂ (RowsMatch R) (s.rows t) (s'.rows t)) (id : Id) :
    Matched (Option.Rel R) (s.get α t id) (s'.get α t id) := by
  unfold get
  generalize s.rows t = rows at h ⊢
  generalize s'.rows t = rows' at h ⊢
  induction h with
  | nil => exact .ok .none
  | @cons row row' rest rest' hrow _ ih =>
    obtain ⟨key, bytes⟩ := row
    obtain ⟨key', bytes'⟩ := row'
    obtain ⟨hkey, hrow⟩ := hrow
    dsimp only at hkey hrow
    subst hkey
    rw [Rows.get?_cons, Rows.get?_cons]
    by_cases hid : id = key'
    · rw [if_pos hid, if_pos hid]
      dsimp only
      rcases hrow.cases with ⟨e, hx, hy⟩ | ⟨a, b, hx, hy, hrecord⟩
      · rw [hx, hy]
        exact .error e
      · rw [hx, hy]
        exact .ok (.some hrecord)
    · rw [if_neg hid, if_neg hid]
      exact ih

theorem find_matched (h : List.Forall₂ (RowsMatch R) (s.rows t) (s'.rows t)) {condition : α → Bool}
    (hcondition : ∀ a b, R a b → condition b = condition a) :
    Matched (Option.Rel R) (s.find t condition) (s'.find t condition) := by
  unfold find
  generalize s.rows t = rows at h ⊢
  generalize s'.rows t = rows' at h ⊢
  induction h with
  | nil => exact .ok .none
  | @cons row row' rest rest' hrow _ ih =>
    obtain ⟨key, bytes⟩ := row
    obtain ⟨key', bytes'⟩ := row'
    obtain ⟨-, hrow⟩ := hrow
    rw [findIn_cons, findIn_cons]
    rcases hrow.cases with ⟨e, hx, hy⟩ | ⟨a, b, hx, hy, hrecord⟩
    · rw [hx, hy]
      exact .error e
    · rw [hx, hy]
      dsimp only
      rw [hcondition a b hrecord]
      split_ifs
      · exact .ok (.some hrecord)
      · exact ih

/-- Where two stores match in each record, they match in any number of them. -/
theorem getMany_matched (h : List.Forall₂ (RowsMatch R) (s.rows t) (s'.rows t)) (ids : List Id) :
    Matched (List.Forall₂ R) (s.getMany α t ids) (s'.getMany α t ids) := by
  induction ids with
  | nil => exact .ok .nil
  | cons id ids ih =>
    rw [getMany, getMany]
    rcases (get_matched h id).lookup_cases with ⟨e, hx, hy⟩ | ⟨hx, hy⟩ | ⟨a, a', hx, hy, hfound⟩
    · rw [hx, hy]
      exact .error e
    all_goals
      rw [hx, hy]
      rcases ih.cases with ⟨e, hx, hy⟩ | ⟨more, more', hx, hy, hmore⟩
      · rw [hx, hy]
        exact .error e
      · rw [hx, hy]
        first
        | exact .ok hmore
        | exact .ok (.cons hfound hmore)

end Store

end Gatehouse
