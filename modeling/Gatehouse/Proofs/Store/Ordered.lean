import Gatehouse.Proofs.Store.Reachable

/-!
# Tables as maps

`find_eq_some_iff`: in a table whose rows ascend, and whose records carry their identifiers, a search
finds the record with the least identifier among those that fulfil the condition, and only if every row
before it decodes. `ordered_run`: the operations keep the rows of all tables ascending.

Proof. A search is a walk along the rows, so what it finds splits them (`findIn_eq_some_iff`); as the rows
ascend, those in front are the ones with lesser identifiers. Every operation is a series of writes into
tables that it names (`rewritten_run`), and a write puts its row in its place (`Rows.ascending_put`).
-/

namespace Gatehouse

/-! ### Rows -/

namespace Rows

/-- The identifiers ascend strictly. -/
def Ascending (rows : Rows) : Prop :=
  rows.Pairwise fun row row' => row.1 < row'.1

instance (rows : Rows) : Decidable rows.Ascending :=
  inferInstanceAs (Decidable (List.Pairwise _ rows))

variable {rows : Rows} {id : Id} {bytes : Bytes}

theorem ascending_put (h : rows.Ascending) (id : Id) (bytes : Bytes) :
    (rows.put id bytes).Ascending := by
  induction rows with
  | nil => exact List.pairwise_singleton _ _
  | cons first rest ih =>
    obtain ⟨key, old⟩ := first
    obtain ⟨hfirst, hrest⟩ := List.pairwise_cons.mp h
    rw [put]
    split_ifs with hlt heq
    · refine List.pairwise_cons.mpr ⟨fun row hrow => ?_, h⟩
      rcases List.mem_cons.mp hrow with rfl | hmem
      · exact hlt
      · exact UInt64.lt_trans hlt (hfirst row hmem)
    · exact List.pairwise_cons.mpr ⟨fun row hrow => heq ▸ hfirst row hrow, hrest⟩
    · refine List.pairwise_cons.mpr ⟨fun row hrow => ?_, ih hrest⟩
      rcases mem_put hrow with rfl | hmem
      · exact UInt64.lt_of_le_of_ne (UInt64.not_lt.mp hlt) fun hsame => heq hsame.symm
      · exact hfirst row hmem

/-- In ascending rows each row is the one that is found under its identifier. -/
theorem get?_eq_some_iff (h : rows.Ascending) : rows.get? id = some bytes ↔ (id, bytes) ∈ rows := by
  refine ⟨mem_of_get?, fun hmem => ?_⟩
  induction rows with
  | nil => cases hmem
  | cons first rest ih =>
    obtain ⟨key, old⟩ := first
    obtain ⟨hfirst, hrest⟩ := List.pairwise_cons.mp h
    rw [get?_cons]
    rcases List.mem_cons.mp hmem with heq | hmem
    · cases heq
      exact if_pos rfl
    · have hne : id ≠ key := fun hsame => UInt64.lt_irrefl _ (hsame ▸ hfirst _ hmem)
      rw [if_neg hne]
      exact ih hrest hmem

/-- The rows in front of one of ascending rows are those with lesser identifiers. -/
theorem Ascending.mem_before_iff {before after : Rows} {row : Id × Bytes}
    (h : (before ++ row :: after).Ascending) {other : Id × Bytes} :
    other ∈ before ↔ other ∈ before ++ row :: after ∧ other.1 < row.1 := by
  obtain ⟨-, htail, hcross⟩ := List.pairwise_append.mp h
  obtain ⟨hafter, -⟩ := List.pairwise_cons.mp htail
  constructor
  · intro hmem
    exact ⟨List.mem_append_left _ hmem, hcross other hmem row List.mem_cons_self⟩
  · rintro ⟨hmem, hlt⟩
    rcases List.mem_append.mp hmem with hmem | hmem
    · exact hmem
    rcases List.mem_cons.mp hmem with rfl | hmem
    · exact absurd hlt (UInt64.lt_irrefl _)
    · exact absurd (UInt64.lt_trans hlt (hafter other hmem)) (UInt64.lt_irrefl _)

/-- A fresh identifier comes after the greatest one. -/
theorem freshId_eq_iff (h : rows.Ascending) : rows.freshId = id ↔
    (rows = [] ∧ id = 1) ∨
      ∃ last ∈ rows, (∀ row ∈ rows, row.1 ≤ last.1) ∧ id = last.1 + 1 := by
  rcases List.eq_nil_or_concat' rows with rfl | ⟨front, last, rfl⟩
  · simp [freshId, eq_comm]
  · obtain ⟨-, -, hcross⟩ := List.pairwise_append.mp h
    have hmem : last ∈ front ++ [last] := List.mem_append_right _ (List.mem_singleton_self _)
    have hfresh : freshId (front ++ [last]) = last.1 + 1 := by
      rw [freshId, List.getLast?_concat]
    have hgreatest : ∀ row ∈ front ++ [last], row.1 ≤ last.1 := by
      intro row hrow
      rcases List.mem_append.mp hrow with hrow | hrow
      · exact UInt64.le_of_lt (hcross row hrow last (List.mem_singleton_self _))
      · rw [List.mem_singleton.mp hrow]
        exact UInt64.le_refl _
    rw [hfresh]
    constructor
    · rintro rfl
      exact .inr ⟨last, hmem, hgreatest, rfl⟩
    · rintro (⟨hnil, -⟩ | ⟨other, hother, hall, rfl⟩)
      · exact absurd hnil (List.append_ne_nil_of_right_ne_nil _ (List.cons_ne_nil _ _))
      · rw [UInt64.le_antisymm (hall last hmem) (hgreatest other hother)]

end Rows

namespace Store

open Time (Instant)

section

variable {α : Type} [Record α] {condition : α → Bool} {s s' : Store} {t : Table} {id : Id}

/-! ### Searches -/

/-- A search finds the first row that fulfils the condition; the rows in front of it decode. -/
theorem findIn_eq_some_iff {rows : Rows} {a : α} : findIn condition rows = .ok (some a) ↔
    ∃ before row after, rows = before ++ row :: after ∧ decode row.2 = .ok a ∧ condition a = true ∧
      ∀ other ∈ before, ∃ b : α, decode other.2 = .ok b ∧ condition b = false := by
  induction rows with
  | nil => exact ⟨nofun, fun ⟨before, row, after, h, _⟩ => by simp at h⟩
  | cons first rest ih =>
    obtain ⟨key, old⟩ := first
    rw [findIn_cons]
    constructor
    · intro h
      rcases hfirst : (decode old : Except StoreError α) with e | b
      · rw [hfirst] at h
        cases h
      rw [hfirst] at h
      dsimp only at h
      split_ifs at h with hb
      · cases h
        exact ⟨[], (key, old), rest, rfl, hfirst, hb, nofun⟩
      · obtain ⟨before, row, after, rfl, hrow, ha, hbefore⟩ := ih.mp h
        refine ⟨(key, old) :: before, row, after, rfl, hrow, ha, fun other hother => ?_⟩
        rcases List.mem_cons.mp hother with rfl | hmem
        · exact ⟨b, hfirst, eq_false_of_ne_true hb⟩
        · exact hbefore other hmem
    · rintro ⟨before, row, after, hrows, hrow, ha, hbefore⟩
      rcases before with _ | ⟨head, before⟩
      · cases hrows
        rw [hrow]
        exact if_pos ha
      · cases hrows
        obtain ⟨b, hb, hno⟩ := hbefore _ List.mem_cons_self
        rw [hb]
        dsimp only
        rw [hno]
        exact ih.mpr ⟨before, row, after, rfl, hrow, ha,
          fun other hother => hbefore other (List.mem_cons_of_mem _ hother)⟩

/-- The rows of each table ascend. -/
def Ordered (s : Store) : Prop :=
  ∀ t, (s.rows t).Ascending

theorem Ordered.get_eq_some_iff (h : s.Ordered) {a : α} :
    s.get α t id = .ok (some a) ↔ ∃ row ∈ s.rows t, row.1 = id ∧ decode row.2 = .ok a := by
  unfold get
  constructor
  · intro hget
    rcases hrow : (s.rows t).get? id with _ | bytes
    · rw [hrow] at hget
      cases hget
    · rw [hrow] at hget
      obtain ⟨b, hb, heq⟩ := exists_of_map_eq_ok hget
      cases heq
      exact ⟨(id, bytes), Rows.mem_of_get? hrow, rfl, hb⟩
  · rintro ⟨⟨key, bytes⟩, hmem, rfl, hrow⟩
    rw [(Rows.get?_eq_some_iff (h t)).mpr hmem]
    dsimp only at hrow ⊢
    rw [hrow]
    rfl

end

section

variable {α : Type} [Identified α] {condition : α → Bool} {s s' : Store} {t : Table}

/-- The records that the rows of a table decode to carry the identifiers of their rows. -/
def Keyed (α : Type) [Identified α] (s : Store) (t : Table) : Prop :=
  ∀ row ∈ s.rows t, ∀ a : α, decode row.2 = .ok a → Identified.id a = row.1

theorem WellKept.keyed (h : WellKept s) (ht : HoldsIn t = Holds α) : s.Keyed α t := by
  intro row hrow a ha
  obtain ⟨b, hb, hid⟩ := h.holds ht hrow
  rw [ha] at hb
  cases hb
  exact hid

/-- What a search finds, by identifiers. -/
theorem find_eq_some_iff (hordered : s.Ordered) (hkeyed : s.Keyed α t) {a : α} :
    s.find t condition = .ok (some a) ↔
      s.get α t (Identified.id a) = .ok (some a) ∧ condition a = true ∧
        ∀ id < Identified.id a, ∃ found, s.get α t id = .ok found ∧
          ∀ b ∈ found, condition b = false := by
  unfold find
  rw [findIn_eq_some_iff]
  constructor
  · rintro ⟨before, row, after, hrows, hrow, ha, hbefore⟩
    have hmem : row ∈ s.rows t := hrows ▸ List.mem_append_right _ List.mem_cons_self
    have hid : Identified.id a = row.1 := hkeyed row hmem a hrow
    refine ⟨hordered.get_eq_some_iff.mpr ⟨row, hmem, hid.symm, hrow⟩, ha, fun id hlt => ?_⟩
    rcases hother : (s.rows t).get? id with _ | bytes
    · exact ⟨none, by rw [get, hother], nofun⟩
    · have hmem' : (id, bytes) ∈ before ++ row :: after := hrows ▸ Rows.mem_of_get? hother
      have hfront : (id, bytes) ∈ before :=
        (Rows.Ascending.mem_before_iff (hrows ▸ hordered t)).mpr ⟨hmem', hid ▸ hlt⟩
      obtain ⟨b, hb, hno⟩ := hbefore _ hfront
      dsimp only at hb
      refine ⟨some b, by rw [get, hother]; dsimp only; rw [hb]; rfl, fun c hc => ?_⟩
      cases hc
      exact hno
  · rintro ⟨hget, ha, hlesser⟩
    obtain ⟨row, hmem, hid, hrow⟩ := hordered.get_eq_some_iff.mp hget
    obtain ⟨before, after, hrows⟩ := List.append_of_mem hmem
    refine ⟨before, row, after, hrows, hrow, ha, fun other hother => ?_⟩
    obtain ⟨hmem', hlt⟩ := (Rows.Ascending.mem_before_iff (hrows ▸ hordered t)).mp hother
    obtain ⟨found, hfound, hno⟩ := hlesser other.1 (hid ▸ hlt)
    have hother' : (s.rows t).get? other.1 = some other.2 :=
      (Rows.get?_eq_some_iff (hordered t)).mpr (hrows ▸ hmem')
    unfold get at hfound
    rw [hother'] at hfound
    obtain ⟨b, hb, rfl⟩ := exists_of_map_eq_ok hfound
    exact ⟨b, hb, hno b rfl⟩

end

/-! ### What the operations write -/

variable {s s' s'' : Store}

/-- A written form that is short enough is read back. -/
theorem get_putBytes_self {α : Type} [Identified α] [Storable α] {t : Table} {id : Id} {a : α}
    (hfits : (MessagePack.encode a).length ≤ valueLimit) :
    (s.putBytes t id (MessagePack.encode a)).get α t id = .ok (some a) := by
  rw [get_putBytes, if_pos ⟨rfl, rfl⟩, decode_encode _ hfits]
  rfl

/-- A store that comes about by writes into some tables. -/
inductive Rewritten (tables : List Table) (s : Store) : Store → Prop
  | same : Rewritten tables s s
  | write {s' : Store} {t : Table} (id : Id) (bytes : Bytes) :
      Rewritten tables s s' → t ∈ tables → Rewritten tables s (s'.putBytes t id bytes)

theorem Rewritten.trans {tables : List Table} (h : Rewritten tables s s')
    (h' : Rewritten tables s' s'') : Rewritten tables s s'' := by
  induction h' with
  | same => exact h
  | write id bytes _ ht ih => exact ih.write id bytes ht

theorem Rewritten.ordered {tables : List Table} (h : Rewritten tables s s') (hordered : s.Ordered) :
    s'.Ordered := by
  induction h with
  | same => exact hordered
  | @write s' t id bytes _ _ ih =>
    intro t'
    by_cases ht : t' = t
    · have hrows : (s'.putBytes t id bytes).rows t' = (s'.rows t).put id bytes := if_pos ht
      rw [hrows]
      exact Rows.ascending_put (ih t) id bytes
    · have hrows : (s'.putBytes t id bytes).rows t' = s'.rows t' := if_neg ht
      rw [hrows]
      exact ih t'

/-- The other tables stay as they are. -/
theorem Rewritten.rows_eq {tables : List Table} (h : Rewritten tables s s') {t : Table}
    (ht : t ∉ tables) : s'.rows t = s.rows t := by
  induction h with
  | same => rfl
  | @write s' t' id bytes _ hmem ih =>
    have hne : t ≠ t' := fun heq => ht (heq ▸ hmem)
    have hrows : (s'.putBytes t' id bytes).rows t = s'.rows t := if_neg hne
    exact hrows.trans ih

theorem write_eq_ok_iff {t : Table} {id : Id} {bytes : Bytes} : s.write t id bytes = .ok s' ↔
    bytes.length ≤ valueLimit ∧ s' = s.putBytes t id bytes := by
  unfold write
  split_ifs with hlength
  · rw [Except.ok.injEq, eq_comm]
    exact (and_iff_right hlength).symm
  · exact ⟨nofun, fun h => absurd h.1 hlength⟩

theorem Rewritten.of_write {tables : List Table} {t : Table} {id : Id} {bytes : Bytes}
    (h : Rewritten tables s s') (hwrite : s'.write t id bytes = .ok s'') (ht : t ∈ tables) :
    Rewritten tables s s'' := by
  obtain ⟨-, rfl⟩ := write_eq_ok_iff.mp hwrite
  exact h.write id bytes ht

theorem rewritten_put {α : Type} [Identified α] {t : Table} {a : α} {result : Store × α}
    (hput : s.put t a = .ok result) : Rewritten [t] s result.1 := by
  unfold put at hput
  dsimp only at hput
  obtain ⟨s₁, hwrite, heq⟩ := exists_of_bind_eq_ok hput
  cases heq
  exact Rewritten.same.of_write hwrite List.mem_cons_self

theorem rewritten_modify {α : Type} [Record α] {t : Table} {id : Id} {change : α → α}
    (hmodify : s.modify t id change = .ok (some s')) : Rewritten [t] s s' := by
  unfold modify at hmodify
  obtain ⟨found, -, hrest⟩ := exists_of_bind_eq_ok hmodify
  rcases found with _ | a
  · cases hrest
  · obtain ⟨s₁, hwrite, heq⟩ := exists_of_bind_eq_ok hrest
    cases heq
    exact Rewritten.same.of_write hwrite List.mem_cons_self

theorem rewritten_redeemInvite {now : Instant} {token : String} {key : NewUserKey}
    {result : Store × Option User} (h : s.redeemInvite now token key = .ok result) :
    Rewritten [.userKeys, .users] s result.1 := by
  unfold redeemInvite at h
  split_ifs at h with htoken
  · cases h
    exact .same
  obtain ⟨found, -, hrest⟩ := exists_of_bind_eq_ok h
  rcases found with _ | u
  · cases hrest
    exact .same
  · obtain ⟨s₁, hlink, hrest⟩ := exists_of_bind_eq_ok hrest
    obtain ⟨s₂, huser, heq⟩ := exists_of_bind_eq_ok hrest
    cases heq
    exact (Rewritten.same.of_write hlink (by decide)).of_write huser (by decide)

theorem rewritten_pinHostKey {id : Id} {key : Bytes} (h : s.pinHostKey id key = .ok s') :
    Rewritten [.hosts] s s' := by
  unfold pinHostKey at h
  obtain ⟨found, hmodify, hrest⟩ := exists_of_bind_eq_ok h
  rcases found with _ | s₁
  · cases hrest
  · cases hrest
    exact rewritten_modify hmodify

theorem rewritten_closeSession {now : Instant} {id : Id} {error : String}
    (h : s.closeSession now id error = .ok s') : Rewritten [.sessions] s s' := by
  unfold closeSession at h
  obtain ⟨found, hmodify, hrest⟩ := exists_of_bind_eq_ok h
  rcases found with _ | s₁
  · cases hrest
  · cases hrest
    exact rewritten_modify hmodify

theorem rewritten_foldlM_closed {now : Instant} {reason : String} {active : List Session} :
    ∀ {s₁ : Store}, Rewritten [.sessions] s s₁ → active.foldlM (fun s session =>
      s.write .sessions session.id (MessagePack.encode (closed now reason session))) s₁ = .ok s' →
      Rewritten [.sessions] s s' := by
  induction active with
  | nil =>
    intro s₁ h hfold
    cases hfold
    exact h
  | cons session active ih =>
    intro s₁ h hfold
    rw [List.foldlM_cons] at hfold
    obtain ⟨s₂, hwrite, hrest⟩ := exists_of_bind_eq_ok hfold
    exact ih (h.of_write hwrite List.mem_cons_self) hrest

theorem rewritten_closeActiveSessions {now : Instant} {reason : String} {result : Store × Nat}
    (h : s.closeActiveSessions now reason = .ok result) : Rewritten [.sessions] s result.1 := by
  unfold closeActiveSessions at h
  obtain ⟨sessions, -, hrest⟩ := exists_of_bind_eq_ok h
  obtain ⟨s₁, hfold, heq⟩ := exists_of_bind_eq_ok hrest
  cases heq
  exact rewritten_foldlM_closed .same hfold

/-! ### Sessions -/

theorem createSession_eq_ok {now : Instant} {userId hostId : Id} {session : Session}
    (h : s.createSession now userId hostId = .ok (s', session)) :
    session = { id := (s.rows .sessions).freshId, userId, hostId, status := .active, createdAt := now } ∧
      (MessagePack.encode session).length ≤ valueLimit ∧
      s' = s.putBytes .sessions session.id (MessagePack.encode session) := by
  unfold createSession put at h
  obtain ⟨s₁, hwrite, heq⟩ := exists_of_bind_eq_ok h
  cases heq
  obtain ⟨hfits, rfl⟩ := write_eq_ok_iff.mp hwrite
  exact ⟨rfl, hfits, rfl⟩

theorem closeSession_of_session {now : Instant} {id : Id} {error : String} {session : Session}
    (hread : s.session id = .ok (some session))
    (hfits : (MessagePack.encode (closed now error session)).length ≤ valueLimit) :
    s.closeSession now id error =
      .ok (s.putBytes .sessions id (MessagePack.encode (closed now error session))) := by
  have hget : s.get Session .sessions id = .ok (some session) := hread
  have hmodify : s.modify .sessions id (closed now error) =
      .ok (some (s.putBytes .sessions id (MessagePack.encode (closed now error session)))) := by
    rw [modify, hget]
    show (s.write .sessions id _ >>= _) = _
    rw [write_eq_ok_iff.mpr ⟨hfits, rfl⟩]
    rfl
  rw [closeSession, hmodify]
  rfl

/-! ### Tables that operations write into -/

/-- The tables that an operation writes into. -/
def Operation.tables : Operation → List Table
  | .putUser _ => [.users]
  | .putUserKey _ => [.userKeys]
  | .putUserGroup _ => [.userGroups]
  | .putHostGroup _ => [.hostGroups]
  | .putAcl _ => [.acls]
  | .putHost _ | .pinHostKey _ _ => [.hosts]
  | .putSshKey _ => [.sshKeys]
  | .redeemInvite _ _ _ => [.userKeys, .users]
  | .createSession _ _ _ | .closeSession _ _ _ | .closeActiveSessions _ _ => [.sessions]
  | .reopen => []

theorem rewritten_run {op : Operation} (hrun : op.run s = .ok s') : Rewritten op.tables s s' := by
  cases op with
  | putUser | putUserKey | putUserGroup | putHostGroup | putAcl | putHost | putSshKey
  | createSession =>
    obtain ⟨result, hput, rfl⟩ := exists_of_map_eq_ok hrun
    exact rewritten_put hput
  | redeemInvite =>
    obtain ⟨result, hredeem, rfl⟩ := exists_of_map_eq_ok hrun
    exact rewritten_redeemInvite hredeem
  | pinHostKey => exact rewritten_pinHostKey hrun
  | closeSession => exact rewritten_closeSession hrun
  | closeActiveSessions =>
    obtain ⟨result, hclose, rfl⟩ := exists_of_map_eq_ok hrun
    exact rewritten_closeActiveSessions hclose
  | reopen =>
    cases hrun
    exact .same

theorem ordered_run (h : s.Ordered) {op : Operation} (hrun : op.run s = .ok s') : s'.Ordered :=
  (rewritten_run hrun).ordered h

theorem ordered_of_reachable (h : Reachable s) : s.Ordered := by
  induction h with
  | empty => exact fun _ => List.Pairwise.nil
  | step op _ hrun ih => exact ordered_run ih hrun

end Store

end Gatehouse
