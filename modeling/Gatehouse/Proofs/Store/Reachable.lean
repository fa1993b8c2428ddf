import Gatehouse.Proofs.MessagePack.ReadBack
import Gatehouse.Proofs.Store.Find
import Gatehouse.Store.Queries

/-!
# Stores that come about by their own operations

`wellKept_of_reachable`: in every store that the operations make out of an empty one, each row stands
for a record of its table's type, and the row's identifier is the one in the record.

Proof. Every write is that of the written form of a record under its own identifier, and such forms
are read back, as the store's file takes only forms whose length can be said in them (`wellKept_write`).
The operations that change a record take it from a row, so it has that row's identifier already.
-/

namespace Gatehouse

/-! ### Steps that may fail -/

section

variable {ε α β : Type} {x : Except ε α} {b : β}

theorem exists_of_bind_eq_ok {f : α → Except ε β} (h : x >>= f = .ok b) :
    ∃ a, x = .ok a ∧ f a = .ok b := by
  rcases x with e | a
  · cases h
  · exact ⟨a, rfl, h⟩

theorem exists_of_map_eq_ok {f : α → β} (h : x.map f = .ok b) : ∃ a, x = .ok a ∧ f a = b := by
  rcases x with e | a
  · cases h
  · cases h
    exact ⟨a, rfl, rfl⟩

end

/-! ### Rows -/

namespace Rows

theorem get?_cons (key : Id) (old : Bytes) (rest : Rows) (id : Id) :
    get? ((key, old) :: rest) id = if id = key then some old else get? rest id := by
  rw [get?, List.lookup_cons]
  by_cases h : id = key
  · rw [beq_iff_eq.mpr h, if_pos h]
  · rw [beq_eq_false_iff_ne.mpr h, if_neg h]
    rfl

theorem get?_put (rows : Rows) (id : Id) (bytes : Bytes) (id' : Id) :
    (rows.put id bytes).get? id' = if id' = id then some bytes else rows.get? id' := by
  induction rows with
  | nil => exact get?_cons id bytes [] id'
  | cons row rest ih =>
    obtain ⟨key, old⟩ := row
    rw [put]
    by_cases hlt : id < key
    · rw [if_pos hlt, get?_cons]
    rw [if_neg hlt]
    by_cases heq : id = key
    · rw [if_pos heq, get?_cons, get?_cons, ← heq]
      by_cases h : id' = id
      · rw [if_pos h, if_pos h]
      · rw [if_neg h, if_neg h, if_neg h]
    · rw [if_neg heq, get?_cons, get?_cons, ih]
      by_cases h : id' = key
      · rw [if_pos h, if_pos h, if_neg fun h' => heq (h'.symm.trans h)]
      · rw [if_neg h, if_neg h]

theorem mem_put {rows : Rows} {id : Id} {bytes : Bytes} {row : Id × Bytes}
    (h : row ∈ rows.put id bytes) : row = (id, bytes) ∨ row ∈ rows := by
  induction rows with
  | nil => exact .inl (List.mem_singleton.mp h)
  | cons first rest ih =>
    obtain ⟨key, old⟩ := first
    rw [put] at h
    split_ifs at h with hlt heq
    · exact List.mem_cons.mp h
    · exact (List.mem_cons.mp h).imp_right (List.mem_cons_of_mem _)
    · rcases List.mem_cons.mp h with rfl | hmem
      · exact .inr List.mem_cons_self
      · exact (ih hmem).imp_right (List.mem_cons_of_mem _)

theorem mem_of_get? {rows : Rows} {id : Id} {bytes : Bytes} (h : rows.get? id = some bytes) :
    (id, bytes) ∈ rows := by
  induction rows with
  | nil => cases h
  | cons row rest ih =>
    obtain ⟨key, old⟩ := row
    rw [get?_cons] at h
    by_cases hkey : id = key
    · rw [if_pos hkey] at h
      cases h
      rw [hkey]
      exact List.mem_cons_self
    · rw [if_neg hkey] at h
      exact List.mem_cons_of_mem _ (ih h)

end Rows

namespace Store

open Time (Instant)

/-! ### Operations -/

/-- What can be done to a store. -/
inductive Operation where
  | putUser (u : User)
  | putUserKey (k : UserKey)
  | putUserGroup (g : Group)
  | putHostGroup (g : Group)
  | putAcl (a : Acl)
  | putHost (h : Host)
  | putSshKey (k : SshKey)
  | redeemInvite (now : Instant) (token : String) (key : NewUserKey)
  | pinHostKey (id : Id) (key : Bytes)
  | createSession (now : Instant) (userId hostId : Id)
  | closeSession (now : Instant) (id : Id) (error : String)
  | closeActiveSessions (now : Instant) (reason : String)
  /-- The store is closed, and its file opened again. -/
  | reopen

/-- The store after an operation. -/
def Operation.run (s : Store) : Operation → Except StoreError Store
  | .putUser u => (s.put .users u).map Prod.fst
  | .putUserKey k => (s.put .userKeys k).map Prod.fst
  | .putUserGroup g => (s.put .userGroups g).map Prod.fst
  | .putHostGroup g => (s.put .hostGroups g).map Prod.fst
  | .putAcl a => (s.put .acls a).map Prod.fst
  | .putHost h => (s.put .hosts h).map Prod.fst
  | .putSshKey k => (s.put .sshKeys k).map Prod.fst
  | .redeemInvite now token key => (s.redeemInvite now token key).map Prod.fst
  | .pinHostKey id key => s.pinHostKey id key
  | .createSession now userId hostId => (s.createSession now userId hostId).map Prod.fst
  | .closeSession now id error => s.closeSession now id error
  | .closeActiveSessions now reason => (s.closeActiveSessions now reason).map Prod.fst
  | .reopen => .ok s

/-- The stores that the operations make out of an empty one. An operation that fails leaves the store
as it was. -/
inductive Reachable : Store → Prop where
  | empty : Reachable empty
  | step {s s' : Store} (op : Operation) : Reachable s → op.run s = .ok s' → Reachable s'

/-! ### Rows that stand for records -/

/-- A stored form stands for a record of this type with this identifier. -/
def Holds (α : Type) [Identified α] (id : Id) (bytes : Bytes) : Prop :=
  ∃ a : α, decode bytes = .ok a ∧ Identified.id a = id

/-- The same for the type of a table's records. -/
def HoldsIn : Table → Id → Bytes → Prop
  | .users => Holds User
  | .userKeys => Holds UserKey
  | .userGroups | .hostGroups => Holds Group
  | .acls => Holds Acl
  | .hosts => Holds Host
  | .sshKeys => Holds SshKey
  | .sessions => Holds Session

/-- Every row stands for a record of its table's type with the row's identifier. -/
def WellKept (s : Store) : Prop :=
  ∀ t, ∀ row ∈ s.rows t, HoldsIn t row.1 row.2

section

variable {α : Type} [Identified α] {s s' : Store} {t : Table} {id : Id}

theorem WellKept.holds (h : WellKept s) (ht : HoldsIn t = Holds α) {row : Id × Bytes}
    (hrow : row ∈ s.rows t) : Holds α row.1 row.2 :=
  ht ▸ h t row hrow

/-- Reading by identifier never fails, and gives a record with that identifier. -/
theorem WellKept.get_cases (h : WellKept s) (ht : HoldsIn t = Holds α) (id : Id) :
    s.get α t id = .ok none ∨ ∃ a : α, s.get α t id = .ok (some a) ∧ Identified.id a = id := by
  unfold get
  rcases hbytes : (s.rows t).get? id with _ | bytes
  · exact .inl rfl
  · obtain ⟨a, hdecode, hid⟩ := h.holds ht (Rows.mem_of_get? hbytes)
    dsimp only at hdecode ⊢
    rw [hdecode]
    exact .inr ⟨a, rfl, hid⟩

theorem WellKept.id_of_get (h : WellKept s) (ht : HoldsIn t = Holds α) {a : α}
    (ha : s.get α t id = .ok (some a)) : Identified.id a = id := by
  rcases h.get_cases ht id with hnone | ⟨b, hb, hid⟩
  · rw [hnone] at ha
    cases ha
  · rw [hb] at ha
    cases ha
    exact hid

/-- Reading several records never fails either, and gives just those that are there. -/
theorem WellKept.getMany_mem (h : WellKept s) (ht : HoldsIn t = Holds α) (ids : List Id) :
    ∃ found : List α, s.getMany α t ids = .ok found ∧
      ∀ a, a ∈ found ↔ ∃ id ∈ ids, s.get α t id = .ok (some a) := by
  induction ids with
  | nil => exact ⟨[], rfl, by simp⟩
  | cons id ids ih =>
    obtain ⟨more, hmore, hmem⟩ := ih
    obtain ⟨first, hfirst⟩ : ∃ first, s.get α t id = .ok first := by
      rcases h.get_cases ht id with hnone | ⟨a, ha, -⟩
      · exact ⟨none, hnone⟩
      · exact ⟨some a, ha⟩
    refine ⟨first.toList ++ more, ?_, fun a => ?_⟩
    · rw [getMany, hfirst, hmore]
      rfl
    · rw [List.mem_append, hmem, List.exists_mem_cons_iff, Option.mem_toList, hfirst,
        Except.ok.injEq]

theorem decode_encode [Storable α] (a : α) (h : (MessagePack.encode a).length ≤ valueLimit) :
    decode (MessagePack.encode a) = .ok a := by
  have hread := MessagePack.decode?_encode a (Nat.lt_of_le_of_lt h (by decide))
  rw [decode, hread]

/-- What a row holds after a write: the written form under its identifier, and else what was there. -/
theorem get?_putBytes (s : Store) (t t' : Table) (id id' : Id) (bytes : Bytes) :
    ((s.putBytes t id bytes).rows t').get? id' =
      if t' = t ∧ id' = id then some bytes else (s.rows t').get? id' := by
  unfold putBytes
  by_cases ht : t' = t
  · subst ht
    dsimp only
    rw [if_pos rfl, Rows.get?_put]
    by_cases hid : id' = id
    · rw [if_pos hid, if_pos ⟨rfl, hid⟩]
    · rw [if_neg hid, if_neg fun h => hid h.2]
  · dsimp only
    rw [if_neg ht, if_neg fun h => ht h.1]

/-- What is read after a write: the written record under its identifier, and else what was there. -/
theorem get_putBytes (s : Store) (t t' : Table) (id id' : Id) (bytes : Bytes) :
    (s.putBytes t id bytes).get α t' id' =
      if t' = t ∧ id' = id then (decode bytes).map some else s.get α t' id' := by
  unfold get
  rw [get?_putBytes]
  by_cases h : t' = t ∧ id' = id
  · rw [if_pos h, if_pos h]
  · rw [if_neg h, if_neg h]

/-- A record that has an identifier is put under it, if its form is short enough. -/
theorem put_eq_ok {a : α} (hid : Identified.id a ≠ 0)
    (h : (MessagePack.encode a).length ≤ valueLimit) :
    s.put t a = .ok (s.putBytes t (Identified.id a) (MessagePack.encode a), a) := by
  have hwrite : s.write t (Identified.id a) (MessagePack.encode a) =
      .ok (s.putBytes t (Identified.id a) (MessagePack.encode a)) := if_pos h
  unfold put
  rw [if_neg hid]
  dsimp only
  rw [hwrite]
  rfl

theorem wellKept_write [Storable α] (h : WellKept s) {a : α}
    (hwrite : s.write t id (MessagePack.encode a) = .ok s') (ht : HoldsIn t = Holds α)
    (hid : Identified.id a = id) : WellKept s' := by
  unfold write at hwrite
  split_ifs at hwrite with hlength
  cases hwrite
  intro t' row hrow
  simp only [putBytes] at hrow
  split_ifs at hrow with htable
  · subst htable
    rcases Rows.mem_put hrow with rfl | hmem
    · rw [ht]
      exact ⟨a, decode_encode a hlength, hid⟩
    · exact h t' row hmem
  · exact h t' row hrow

theorem wellKept_put [Storable α] (h : WellKept s) {a : α} {result : Store × α}
    (hput : s.put t a = .ok result) (ht : HoldsIn t = Holds α) : WellKept result.1 := by
  unfold put at hput
  dsimp only at hput
  generalize (if Identified.id a = 0 then Identified.withId a (s.rows t).freshId else a) = c at hput
  obtain ⟨s'', hwrite, heq⟩ := exists_of_bind_eq_ok hput
  cases heq
  exact wellKept_write h hwrite ht rfl

theorem wellKept_modify [Storable α] (h : WellKept s) {change : α → α}
    (hmodify : s.modify t id change = .ok (some s')) (ht : HoldsIn t = Holds α)
    (hchange : ∀ a, Identified.id (change a) = Identified.id a) : WellKept s' := by
  unfold modify at hmodify
  obtain ⟨found, hget, hrest⟩ := exists_of_bind_eq_ok hmodify
  rcases found with _ | a
  · cases hrest
  · obtain ⟨s'', hwrite, heq⟩ := exists_of_bind_eq_ok hrest
    cases heq
    exact wellKept_write h hwrite ht ((hchange a).trans (h.id_of_get ht hget))

end

/-! ### The operations keep the rows -/

variable {s s' : Store}

theorem wellKept_redeemInvite (h : WellKept s) {now : Instant} {token : String} {key : NewUserKey}
    {result : Store × Option User} (hredeem : s.redeemInvite now token key = .ok result) :
    WellKept result.1 := by
  unfold redeemInvite at hredeem
  split_ifs at hredeem with htoken
  · cases hredeem
    exact h
  obtain ⟨found, hfind, hrest⟩ := exists_of_bind_eq_ok hredeem
  rcases found with _ | u
  · cases hrest
    exact h
  · obtain ⟨s₁, hlink, hrest⟩ := exists_of_bind_eq_ok hrest
    obtain ⟨s₂, huser, heq⟩ := exists_of_bind_eq_ok hrest
    cases heq
    exact wellKept_write (wellKept_write h hlink rfl rfl) huser rfl rfl

theorem wellKept_pinHostKey (h : WellKept s) {id : Id} {key : Bytes}
    (hpin : s.pinHostKey id key = .ok s') : WellKept s' := by
  unfold pinHostKey at hpin
  obtain ⟨found, hmodify, hrest⟩ := exists_of_bind_eq_ok hpin
  rcases found with _ | s₁
  · cases hrest
  · cases hrest
    exact wellKept_modify h hmodify rfl fun _ => rfl

theorem wellKept_closeSession (h : WellKept s) {now : Instant} {id : Id} {error : String}
    (hclose : s.closeSession now id error = .ok s') : WellKept s' := by
  unfold closeSession at hclose
  obtain ⟨found, hmodify, hrest⟩ := exists_of_bind_eq_ok hclose
  rcases found with _ | s₁
  · cases hrest
  · cases hrest
    exact wellKept_modify h hmodify rfl fun _ => rfl

theorem wellKept_foldlM_closed {now : Instant} {reason : String} {active : List Session} :
    ∀ {s : Store}, WellKept s → active.foldlM (fun s session =>
      s.write .sessions session.id (MessagePack.encode (closed now reason session))) s = .ok s' →
      WellKept s' := by
  induction active with
  | nil =>
    intro s h hfold
    cases hfold
    exact h
  | cons session active ih =>
    intro s h hfold
    rw [List.foldlM_cons] at hfold
    obtain ⟨s₁, hwrite, hrest⟩ := exists_of_bind_eq_ok hfold
    exact ih (wellKept_write h hwrite rfl rfl) hrest

theorem wellKept_closeActiveSessions (h : WellKept s) {now : Instant} {reason : String}
    {result : Store × Nat} (hclose : s.closeActiveSessions now reason = .ok result) :
    WellKept result.1 := by
  unfold closeActiveSessions at hclose
  obtain ⟨sessions, -, hrest⟩ := exists_of_bind_eq_ok hclose
  obtain ⟨s₁, hfold, heq⟩ := exists_of_bind_eq_ok hrest
  cases heq
  exact wellKept_foldlM_closed h hfold

theorem wellKept_run (h : WellKept s) (op : Operation) (hrun : op.run s = .ok s') : WellKept s' := by
  cases op with
  | putUser | putUserKey | putUserGroup | putHostGroup | putAcl | putHost | putSshKey
  | createSession =>
    obtain ⟨result, hput, rfl⟩ := exists_of_map_eq_ok hrun
    exact wellKept_put h hput rfl
  | redeemInvite =>
    obtain ⟨result, hredeem, rfl⟩ := exists_of_map_eq_ok hrun
    exact wellKept_redeemInvite h hredeem
  | pinHostKey => exact wellKept_pinHostKey h hrun
  | closeSession => exact wellKept_closeSession h hrun
  | closeActiveSessions =>
    obtain ⟨result, hclose, rfl⟩ := exists_of_map_eq_ok hrun
    exact wellKept_closeActiveSessions h hclose
  | reopen =>
    cases hrun
    exact h

theorem wellKept_of_reachable (h : Reachable s) : WellKept s := by
  induction h with
  | empty =>
    intro t row hrow
    cases hrow
  | step op _ hrun ih => exact wellKept_run ih op hrun

end Store

end Gatehouse
