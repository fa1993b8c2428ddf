import Gatehouse.Proofs.Store.Invite

/-!
# Fresh identifiers

`ids_fresh_until_exhausted`: an operation that adds a record gives it an identifier that is not zero and
not in use, and leaves all other records alone, as long as the greatest identifier of all is free in the
table. A run of operations therefore never gives the same identifier twice in one table before that. Once
the greatest identifier is taken, every new record gets identifier zero, so that the second one takes the
place of the first: `id_reused_after_greatest`.

Proof. Identifiers are counted up from the last row, and rows ascend, so that a fresh one is greater than
all others unless the count wraps around (`Rows.freshId_greatest`). No operation removes a row
(`Rewritten.keeps`), so that what was in use stays in use, and a table that is exhausted stays so.
-/

namespace Gatehouse

/-- The greatest identifier of all. -/
def lastId : Id := 0xFFFF_FFFF_FFFF_FFFF

theorem toNat_lastId : lastId.toNat = 2 ^ 64 - 1 := rfl

theorem add_one_eq_zero_iff {id : Id} : id + 1 = 0 ↔ id = lastId := by
  have hlt := id.toNat_lt
  rw [← UInt64.toNat_inj, ← UInt64.toNat_inj, UInt64.toNat_add, UInt64.toNat_one, UInt64.toNat_zero,
    toNat_lastId]
  omega

theorem lt_add_one_iff {id : Id} : id < id + 1 ↔ id ≠ lastId := by
  have hlt := id.toNat_lt
  rw [ne_eq, ← UInt64.toNat_inj, UInt64.lt_iff_toNat_lt, UInt64.toNat_add, UInt64.toNat_one, toNat_lastId]
  omega

theorem Rows.get?_eq_none_iff {rows : Rows} {id : Id} :
    rows.get? id = none ↔ ∀ row ∈ rows, row.1 ≠ id := by
  induction rows with
  | nil => simp [get?]
  | cons row rest ih =>
    obtain ⟨key, old⟩ := row
    rw [get?_cons, List.forall_mem_cons, ← ih]
    by_cases h : id = key <;> simp [h, eq_comm]

/-- While the greatest identifier is free, a fresh one is greater than all that are in use. -/
theorem Rows.freshId_greatest {rows : Rows} (h : rows.Ascending) (hfree : rows.get? lastId = none) :
    rows.freshId ≠ 0 ∧ ∀ row ∈ rows, row.1 < rows.freshId := by
  rcases (freshId_eq_iff h).mp rfl with ⟨rfl, hone⟩ | ⟨last, hlast, hgreatest, hnext⟩
  · simp [hone]
  have hne : last.1 ≠ lastId := get?_eq_none_iff.mp hfree last hlast
  rw [hnext]
  refine ⟨fun hzero => hne (add_one_eq_zero_iff.mp hzero), fun row hrow => ?_⟩
  exact UInt64.lt_of_le_of_lt (hgreatest row hrow) (lt_add_one_iff.mpr hne)

/-- Once the greatest identifier is taken, the count has wrapped around. -/
theorem Rows.freshId_wrapped {rows : Rows} (h : rows.Ascending) (htaken : rows.get? lastId ≠ none) :
    rows.freshId = 0 := by
  obtain ⟨bytes, hbytes⟩ := Option.ne_none_iff_exists'.mp htaken
  have hmem := mem_of_get? hbytes
  rcases (freshId_eq_iff h).mp rfl with ⟨rfl, -⟩ | ⟨last, hlast, hgreatest, hnext⟩
  · cases hmem
  have hle : lastId ≤ last.1 := hgreatest _ hmem
  have hsame : last.1 = lastId := by
    have hlt := last.1.toNat_lt
    rw [UInt64.le_iff_toNat_le, toNat_lastId] at hle
    rw [← UInt64.toNat_inj, toNat_lastId]
    omega
  rw [hnext, add_one_eq_zero_iff, hsame]

/-- A fresh identifier is free, unless the count has wrapped around and met zero. -/
theorem Rows.freshId_free_iff {rows : Rows} (h : rows.Ascending) :
    rows.get? rows.freshId = none ↔ rows.get? lastId = none ∨ rows.get? 0 = none := by
  by_cases hfree : rows.get? lastId = none
  · obtain ⟨-, hgreatest⟩ := freshId_greatest h hfree
    have hnone : rows.get? rows.freshId = none := get?_eq_none_iff.mpr fun row hrow hsame =>
      UInt64.lt_irrefl _ (hsame ▸ hgreatest row hrow)
    exact ⟨fun _ => .inl hfree, fun _ => hnone⟩
  · rw [freshId_wrapped h hfree]
    exact ⟨.inr, fun hone => hone.resolve_left hfree⟩

namespace Store

variable {s s' : Store} {t t' : Table} {id : Id} {op : Operation}

/-! ### Tables without a fresh identifier -/

/-- The greatest identifier of all is taken in the table. -/
def Exhausted (s : Store) (t : Table) : Prop :=
  (s.rows t).get? lastId ≠ none

instance (s : Store) (t : Table) : Decidable (s.Exhausted t) :=
  inferInstanceAs (Decidable (_ ≠ _))

/-- Writing removes no row. -/
theorem Rewritten.keeps {tables : List Table} (h : Rewritten tables s s')
    (hrow : (s.rows t).get? id ≠ none) : (s'.rows t).get? id ≠ none := by
  induction h with
  | same => exact hrow
  | @write s' t' id' bytes _ _ ih =>
    rw [get?_putBytes]
    split_ifs
    · simp
    · exact ih

theorem tried_keeps (op : Operation) (hrow : (s.rows t).get? id ≠ none) :
    ((op.tried s).rows t).get? id ≠ none := by
  unfold Operation.tried
  rcases hrun : op.run s with e | s'
  · exact hrow
  · exact (rewritten_run hrun).keeps hrow

theorem exhausted_foldl (ops : List Operation) :
    ∀ {s : Store}, s.Exhausted t → (ops.foldl Operation.tried s).Exhausted t := by
  induction ops with
  | nil => exact fun h => h
  | cons op ops ih => exact fun h => ih (tried_keeps op h)

theorem reachable_tried (h : s.Reachable) (op : Operation) : (op.tried s).Reachable := by
  unfold Operation.tried
  rcases hrun : op.run s with e | s'
  · exact h
  · exact .step op h hrun

/-! ### Operations that allocate -/

/-- A record type whose identifier is the one that was last given to it. -/
class Relabelled (α : Type) [Identified α] : Prop where
  id_withId : ∀ (a : α) (id : Id), Identified.id (Identified.withId a id) = id := by intros; rfl

instance : Relabelled User where
instance : Relabelled UserKey where
instance : Relabelled Group where
instance : Relabelled Acl where
instance : Relabelled Host where
instance : Relabelled SshKey where
instance : Relabelled Session where

/-- The table and the identifier that a record without one gets when it is put. -/
def putAllocates? {α : Type} [Identified α] (s : Store) (t : Table) (a : α) : Option (Table × Id) :=
  if Identified.id a = 0 then
    match s.put t a with
    | .ok (_, b) => some (t, Identified.id b)
    | .error _ => none
  else none

/-- The table in which an operation adds a record, and the identifier that it gives to the record. -/
def Operation.allocates? (s : Store) : Operation → Option (Table × Id)
  | .putUser u => s.putAllocates? .users u
  | .putUserKey k => s.putAllocates? .userKeys k
  | .putUserGroup g => s.putAllocates? .userGroups g
  | .putHostGroup g => s.putAllocates? .hostGroups g
  | .putAcl a => s.putAllocates? .acls a
  | .putHost h => s.putAllocates? .hosts h
  | .putSshKey k => s.putAllocates? .sshKeys k
  | .redeemInvite now token key =>
    match s.redeemInvite now token key with
    | .ok (_, some u) => some (.userKeys, (s.link now key u).id)
    | _ => none
  | .createSession now userId hostId =>
    s.putAllocates? .sessions { id := 0, userId, hostId, status := .active, createdAt := now : Session }
  | .pinHostKey _ _ | .closeSession _ _ _ | .closeActiveSessions _ _ | .reopen => none

/-- What an operation does that adds a record under an identifier. -/
structure Allocation (s : Store) (op : Operation) (t : Table) (id : Id) : Prop where
  /-- The identifier is new, as long as there is one. -/
  fresh : ¬ s.Exhausted t → id ≠ 0 ∧ (s.rows t).get? id = none
  wrapped : s.Exhausted t → id = 0
  /-- The new row stands for a record that carries the identifier. -/
  written : ∃ bytes, ((op.tried s).rows t).get? id = some bytes ∧ HoldsIn t id bytes
  /-- No other row changes, but for that of a user whose invite is redeemed. -/
  others : ∀ t' id', ¬ (t' = t ∧ id' = id) → (∀ u ∈ op.redeems? s, ¬ (t' = .users ∧ id' = u.id)) →
    ((op.tried s).rows t').get? id' = (s.rows t').get? id'

theorem fresh_or_wrapped (hordered : s.Ordered) (hid : id = (s.rows t).freshId) :
    (¬ s.Exhausted t → id ≠ 0 ∧ (s.rows t).get? id = none) ∧ (s.Exhausted t → id = 0) := by
  subst hid
  refine ⟨fun hnot => ?_, Rows.freshId_wrapped (hordered t)⟩
  obtain ⟨hzero, hgreatest⟩ := Rows.freshId_greatest (hordered t) (not_not.mp hnot)
  exact ⟨hzero, Rows.get?_eq_none_iff.mpr fun row hrow heq =>
    UInt64.lt_irrefl _ (heq ▸ hgreatest row hrow)⟩

/-- A record without an identifier is written under a fresh one. -/
theorem put_of_zero {α : Type} [Identified α] [Relabelled α] {a b : α} (hzero : Identified.id a = 0)
    (hput : s.put t a = .ok (s', b)) :
    Identified.id b = (s.rows t).freshId ∧ (MessagePack.encode b).length ≤ valueLimit ∧
      s' = s.putBytes t (Identified.id b) (MessagePack.encode b) := by
  unfold put at hput
  rw [if_pos hzero] at hput
  obtain ⟨s₁, hwrite, heq⟩ := exists_of_bind_eq_ok hput
  cases heq
  obtain ⟨hfits, rfl⟩ := write_eq_ok_iff.mp hwrite
  exact ⟨Relabelled.id_withId _ _, hfits, rfl⟩

theorem allocation_of_put {α : Type} [Identified α] [Relabelled α] [Storable α] {a b : α}
    (hordered : s.Ordered) (ht : HoldsIn t = Holds α) (hzero : Identified.id a = 0)
    (hput : s.put t a = .ok (s', b)) (hrun : op.tried s = s') :
    Allocation s op t (Identified.id b) := by
  obtain ⟨hid, hfits, rfl⟩ := put_of_zero hzero hput
  obtain ⟨hfresh, hwrapped⟩ := fresh_or_wrapped hordered hid
  refine ⟨hfresh, hwrapped, ⟨MessagePack.encode b, ?_, ?_⟩, fun t' id' hother _ => ?_⟩
  · rw [hrun, get?_putBytes, if_pos ⟨rfl, rfl⟩]
  · rw [ht]
    exact ⟨b, decode_encode b hfits, rfl⟩
  · rw [hrun, get?_putBytes, if_neg hother]

theorem allocation_of_putAllocates {α : Type} [Identified α] [Relabelled α] [Storable α] {a : α}
    (hordered : s.Ordered) (ht : HoldsIn t' = Holds α) (hrun : op.run s = (s.put t' a).map Prod.fst)
    (h : s.putAllocates? t' a = some (t, id)) :
    id = (s.rows t).freshId ∧ Allocation s op t id := by
  unfold putAllocates? at h
  split_ifs at h with hzero
  rcases hput : s.put t' a with e | ⟨s', b⟩
  · rw [hput] at h
    cases h
  rw [hput] at h
  cases h
  have htried : op.tried s = s' := by
    rw [Operation.tried, hrun, hput]
    rfl
  exact ⟨(put_of_zero hzero hput).1, allocation_of_put hordered ht hzero hput htried⟩

/-- Whatever adds a record takes the fresh identifier of the record's table. -/
theorem allocation_of_allocates (hordered : s.Ordered) (hkeyed : s.Keyed User .users)
    (h : op.allocates? s = some (t, id)) : id = (s.rows t).freshId ∧ Allocation s op t id := by
  cases op with
  | putUser | putUserKey | putUserGroup | putHostGroup | putAcl | putHost | putSshKey =>
    exact allocation_of_putAllocates hordered rfl rfl h
  | createSession now userId hostId =>
    exact allocation_of_putAllocates (α := Session) hordered rfl rfl h
  | redeemInvite now token key =>
    simp only [Operation.allocates?] at h
    split at h
    · next s' u' hredeem =>
      cases h
      obtain ⟨u, hredeemable, rfl, rfl⟩ := (redeemInvite_eq_some_iff hordered hkeyed).mp hredeem
      have hid : (s.link now key u.spent).id = (s.rows .userKeys).freshId := rfl
      obtain ⟨hfresh, hwrapped⟩ := fresh_or_wrapped hordered hid
      have hredeemed := redeemed_of_redeemable hordered hredeemable
      have htried : (Operation.redeemInvite now token key).tried s = s.redeem now key u := by
        rw [Operation.tried, Operation.run, hredeem]
        rfl
      refine ⟨rfl, hfresh, hwrapped, ⟨MessagePack.encode (s.link now key u), ?_, ?_⟩, ?_⟩
      · rw [htried, redeem, get?_putBytes, if_neg (by simp), get?_putBytes]
        exact if_pos ⟨rfl, rfl⟩
      · exact ⟨s.link now key u, decode_encode _ hredeemable.linkFits, rfl⟩
      · intro t' id' hlink huser
        rw [htried]
        refine hredeemed.others t' id' hlink (huser u.spent ?_)
        simp [Operation.redeems?, hredeem]
    · cases h
  | pinHostKey | closeSession | closeActiveSessions | reopen => cases h

/-! ### Runs of operations -/

/-- The identifiers that a run of operations gives to new records of a table. -/
def allocated (t : Table) (s : Store) : List Operation → List Id
  | [] => []
  | op :: ops =>
    ((op.allocates? s).filter fun allocation => allocation.1 = t).toList.map Prod.snd ++
      allocated t (op.tried s) ops

/-- What a run allocates begins with one identifier or none. -/
theorem allocated_cons (t : Table) (s : Store) (op : Operation) (ops : List Operation) :
    (∃ id, op.allocates? s = some (t, id) ∧ allocated t s (op :: ops) = id :: allocated t (op.tried s) ops) ∨
      allocated t s (op :: ops) = allocated t (op.tried s) ops := by
  rcases h : op.allocates? s with _ | ⟨t', id⟩
  · simp [allocated, h]
  · by_cases ht : t' = t
    · subst ht
      exact .inl ⟨id, rfl, by simp [allocated, h, Option.filter]⟩
    · simp [allocated, h, ht]

/-- In an exhausted table all new records get identifier zero. -/
theorem allocated_of_exhausted (ops : List Operation) : ∀ {s : Store}, s.Reachable → s.Exhausted t →
    ∃ wrapped, allocated t s ops = List.replicate wrapped 0 := by
  induction ops with
  | nil => exact fun _ _ => ⟨0, rfl⟩
  | cons op ops ih =>
    intro s hreach hexhausted
    obtain ⟨wrapped, hrest⟩ := ih (reachable_tried hreach op) (tried_keeps op hexhausted)
    rcases allocated_cons t s op ops with ⟨id, hid, heq⟩ | heq
    · obtain ⟨-, hallocation⟩ := allocation_of_allocates (ordered_of_reachable hreach)
        ((wellKept_of_reachable hreach).keyed rfl) hid
      refine ⟨wrapped + 1, ?_⟩
      rw [heq, hrest, hallocation.wrapped hexhausted, List.replicate_succ]
    · exact ⟨wrapped, heq.trans hrest⟩

/-- The identifiers of a run ascend from above those in use, until the table is exhausted. -/
theorem allocated_ascend (ops : List Operation) : ∀ {s : Store}, s.Reachable → ¬ s.Exhausted t →
    ∃ fresh wrapped, allocated t s ops = fresh ++ List.replicate wrapped 0 ∧ fresh.Pairwise (· < ·) ∧
      (∀ id ∈ fresh, id ≠ 0 ∧ ∀ row ∈ s.rows t, row.1 < id) ∧
      (¬ (ops.foldl Operation.tried s).Exhausted t → wrapped = 0) := by
  induction ops with
  | nil => exact fun _ _ => ⟨[], 0, rfl, .nil, nofun, fun _ => rfl⟩
  | cons op ops ih =>
    intro s hreach hnot
    have hreach' := reachable_tried hreach op
    have hgreatest := Rows.freshId_greatest (ordered_of_reachable hreach t) (not_not.mp hnot)
    -- What comes after this operation, whether or not it takes the last identifier.
    obtain ⟨fresh, wrapped, hrest, hascend, hunused, hleft⟩ : ∃ fresh wrapped,
        allocated t (op.tried s) ops = fresh ++ List.replicate wrapped 0 ∧ fresh.Pairwise (· < ·) ∧
        (∀ id ∈ fresh, id ≠ 0 ∧ ∀ row ∈ (op.tried s).rows t, row.1 < id) ∧
        (¬ (ops.foldl Operation.tried (op.tried s)).Exhausted t → wrapped = 0) := by
      by_cases hnow : (op.tried s).Exhausted t
      · obtain ⟨wrapped, hrest⟩ := allocated_of_exhausted ops hreach' hnow
        exact ⟨[], wrapped, hrest, .nil, nofun, fun hnot => absurd (exhausted_foldl ops hnow) hnot⟩
      · exact ih hreach' hnow
    have hkept : ∀ id ∈ fresh, id ≠ 0 ∧ ∀ row ∈ s.rows t, row.1 < id := by
      intro id hid
      refine ⟨(hunused id hid).1, fun row hrow => ?_⟩
      have hthere := tried_keeps op fun hnone => Rows.get?_eq_none_iff.mp hnone row hrow rfl
      obtain ⟨bytes, hbytes⟩ := Option.ne_none_iff_exists'.mp hthere
      exact (hunused id hid).2 (row.1, bytes) (Rows.mem_of_get? hbytes)
    rcases allocated_cons t s op ops with ⟨id, hid, heq⟩ | heq
    · obtain ⟨rfl, hallocation⟩ := allocation_of_allocates (ordered_of_reachable hreach)
        ((wellKept_of_reachable hreach).keyed rfl) hid
      obtain ⟨bytes, hwritten, -⟩ := hallocation.written
      refine ⟨_ :: fresh, wrapped, by rw [heq, hrest, List.cons_append],
        List.pairwise_cons.mpr ⟨fun id' hid' => ?_, hascend⟩, ?_, hleft⟩
      · exact (hunused id' hid').2 _ (Rows.mem_of_get? hwritten)
      · exact List.forall_mem_cons.mpr ⟨hgreatest, hkept⟩
    · exact ⟨fresh, wrapped, heq.trans hrest, hascend, hkept, hleft⟩

/-- An identifier that is given to a new record is not zero and not in use, and no other record changes
but a user whose invite is redeemed, unless the greatest identifier of the table is taken. In a run the
identifiers of a table ascend until then, and from then on they are all zero. -/
theorem ids_fresh_until_exhausted {s : Store} (hreach : s.Reachable) :
    (∀ op t id, op.allocates? s = some (t, id) → Allocation s op t id) ∧
    ∀ ops t, ∃ fresh wrapped, allocated t s ops = fresh ++ List.replicate wrapped 0 ∧
      fresh.Pairwise (· < ·) ∧ (∀ id ∈ fresh, id ≠ 0 ∧ (s.rows t).get? id = none) ∧
      (¬ (ops.foldl Operation.tried s).Exhausted t → wrapped = 0) ∧
      ((allocated t s ops).Nodup ↔ wrapped ≤ 1) := by
  refine ⟨fun op t id h => (allocation_of_allocates (ordered_of_reachable hreach)
    ((wellKept_of_reachable hreach).keyed rfl) h).2, fun ops t => ?_⟩
  obtain ⟨fresh, wrapped, heq, hascend, hunused, hleft⟩ : ∃ fresh wrapped,
      allocated t s ops = fresh ++ List.replicate wrapped 0 ∧ fresh.Pairwise (· < ·) ∧
      (∀ id ∈ fresh, id ≠ 0 ∧ (s.rows t).get? id = none) ∧
      (¬ (ops.foldl Operation.tried s).Exhausted t → wrapped = 0) := by
    by_cases hexhausted : s.Exhausted t
    · obtain ⟨wrapped, hrest⟩ := allocated_of_exhausted ops hreach hexhausted
      exact ⟨[], wrapped, hrest, .nil, nofun, fun hnot => absurd (exhausted_foldl ops hexhausted) hnot⟩
    · obtain ⟨fresh, wrapped, heq, hascend, hunused, hleft⟩ := allocated_ascend ops hreach hexhausted
      refine ⟨fresh, wrapped, heq, hascend, fun id hid => ⟨(hunused id hid).1, ?_⟩, hleft⟩
      exact Rows.get?_eq_none_iff.mpr fun row hrow hsame =>
        UInt64.lt_irrefl _ (hsame ▸ (hunused id hid).2 row hrow)
  have hnodup : fresh.Nodup := hascend.imp fun h => UInt64.ne_of_lt h
  have hdisjoint : fresh.Disjoint (List.replicate wrapped 0) := fun id hid hzero =>
    (hunused id hid).1 (List.eq_of_mem_replicate hzero)
  refine ⟨fresh, wrapped, heq, hascend, hunused, hleft, ?_⟩
  rw [heq, List.nodup_append', List.nodup_replicate]
  exact ⟨fun h => h.2.1, fun h => ⟨hnodup, h, hdisjoint⟩⟩

/-- A user with an identifier, or without one, which is then zero. -/
def userWithId (id : Id) (name : String) : User :=
  { id, name, email := name }

/-- A store with one user. -/
def withUser (id : Id) : Store :=
  (Operation.putUser (userWithId id "ann")).tried Store.empty

theorem reachable_withUser (id : Id) : (withUser id).Reachable :=
  reachable_tried .empty _

/-- Users with and without an identifier are put, and sessions are started. -/
theorem ids_fresh_until_exhausted_mixed :
    let s := withUser 7
    let ops : List Operation := [.putUser (userWithId 0 "bob"), .createSession .epoch 7 1,
      .putUser (userWithId 20 "eve"), .putUser (userWithId 0 "joe"), .createSession .epoch 8 1]
    s.Reachable ∧ allocated .users s ops = [8, 21] ∧ allocated .sessions s ops = [1, 2] ∧
      (∀ op t id, op.allocates? s = some (t, id) → Allocation s op t id) ∧
      ∃ fresh wrapped, allocated .users s ops = fresh ++ List.replicate wrapped 0 ∧
        (¬ (ops.foldl Operation.tried s).Exhausted .users → wrapped = 0) ∧
        ((allocated .users s ops).Nodup ↔ wrapped ≤ 1) := by
  intro s ops
  have hreach := reachable_withUser 7
  obtain ⟨hone, hrun⟩ := ids_fresh_until_exhausted hreach
  obtain ⟨fresh, wrapped, heq, -, -, hleft, hnodup⟩ := hrun ops .users
  exact ⟨hreach, by decide +kernel, by decide +kernel, hone, fresh, wrapped, heq, hleft, hnodup⟩

/-- Once the greatest identifier is taken, two new users get identifier zero, and the second one takes the
place of the first. -/
theorem id_reused_after_greatest :
    let s := withUser lastId
    let first := Operation.putUser (userWithId 0 "bob")
    let second := Operation.putUser (userWithId 0 "eve")
    s.Reachable ∧ first.allocates? s = some (.users, 0) ∧
      second.allocates? (first.tried s) = some (.users, 0) ∧
      (first.tried s).user 0 = .ok (some (userWithId 0 "bob")) ∧
      (second.tried (first.tried s)).user 0 = .ok (some (userWithId 0 "eve")) := by
  intro s first second
  refine ⟨reachable_withUser lastId, ?_, ?_, ?_, ?_⟩
  all_goals decide +kernel

end Store

end Gatehouse
