import Gatehouse.Proofs.Store.Journal
import Gatehouse.Proofs.Text.Lossy

/-!
# Sessions that a previous run has left active

`sweep_ends_active`: in a store that comes about by its own operations, the sweep ends every active session
and nothing else, counts them, and finds none when it is made again. All that can fail is that a reason is
too long for the store's file. A session row that does not decode, wherever it stands, makes the sweep fail.
A sweep that fails changes nothing.

Proof. The writes of the sweep go along the rows from the front. As rows ascend and have the identifiers of
their sessions, each write replaces the row that its session was read from (`Rows.put_between`), and so
the rows become the swept ones, one after the other (`endAll_activeIn`).
-/

namespace Gatehouse

/-! ### Rows in their places -/

namespace Rows

/-- In ascending rows, what is put under the identifier of a row replaces that row. -/
theorem put_between {before after : Rows} {id : Id} {old : Bytes}
    (h : (before ++ (id, old) :: after : Rows).Ascending) (bytes : Bytes) :
    Rows.put (before ++ (id, old) :: after) id bytes = before ++ (id, bytes) :: after := by
  induction before with
  | nil =>
    rw [List.nil_append, put, if_neg (UInt64.lt_irrefl id), if_pos rfl]
    rfl
  | cons first before ih =>
    obtain ⟨key, old'⟩ := first
    obtain ⟨hfirst, hrest⟩ := List.pairwise_cons.mp h
    have hlt : key < id := hfirst (id, old) (List.mem_append_right _ List.mem_cons_self)
    have hlt' : ¬ id < key := fun h => UInt64.lt_irrefl _ (UInt64.lt_trans hlt h)
    have hne : id ≠ key := fun h => UInt64.lt_irrefl _ (h ▸ hlt)
    rw [List.cons_append, put, if_neg hlt', if_neg hne, ih hrest]
    rfl

end Rows

namespace Store

open Time (Instant)

variable {s s' : Store} {now : Instant} {reason : String}

/-! ### The length of a session's form -/

/-- Apart from the reason, the form of an ended session has room enough. -/
theorem length_encode_closed (now : Instant) (reason : String) (session : Session) :
    (MessagePack.encode (closed now reason session)).length ≤ (Text.utf8 reason).length + 512 := by
  have htime (t : Instant) : (MessagePack.writeText (Time.Rfc3339.write t)).length ≤ 137 := by
    have htext := MessagePack.length_writeText_le (Time.Rfc3339.write t)
    have hbytes := Text.length_utf8_le (Time.Rfc3339.write t)
    have hchars := Time.Rfc3339.length_write_le t
    omega
  have hlead : (MessagePack.mapLead (Record.fields Session).length).length = 1 := rfl
  have hnames : ((Record.fields Session).map fun f => (MessagePack.writeText f.name).length).sum = 54 := by
    decide +kernel
  have hstatus : (MessagePack.writeValue (.choice (Choice.names SessionStatus))
      (Choice.toIndex SessionStatus.closed)).length = 7 := by decide +kernel
  have hid := MessagePack.length_writeWord_le session.id.toNat
  have huser := MessagePack.length_writeWord_le session.userId.toNat
  have hhost := MessagePack.length_writeWord_le session.hostId.toNat
  have hreason := MessagePack.length_writeText_le reason
  have hcreated := htime session.createdAt
  have hstopped := htime now
  rw [MessagePack.encode, List.length_append, hlead]
  simp only [Record.fields, Record.toRow, closed, MessagePack.writeEntries, MessagePack.writeValue,
    List.map_cons, List.map_nil, List.sum_cons, List.sum_nil, List.length_append, List.length_nil]
    at hnames hstatus ⊢
  omega

/-! ### The sweep along the rows -/

/-- The active sessions of some rows. -/
def activeIn (rows : Rows) : List Session :=
  (rows.filterMap fun row => (decode row.2 : Except StoreError Session).toOption).filter
    (·.status = .active)

/-- Ends sessions one after the other. -/
def endAll (now : Instant) (reason : String) (sessions : List Session) (s : Store) :
    Except StoreError Store :=
  sessions.foldlM (fun s session =>
    s.write .sessions session.id (MessagePack.encode (closed now reason session))) s

/-- What the sweep makes of a row. -/
def sweptRow (now : Instant) (reason : String) (row : Id × Bytes) : Id × Bytes :=
  match (decode row.2 : Except StoreError Session) with
  | .error _ => row
  | .ok session =>
    if session.status = .active then (row.1, MessagePack.encode (closed now reason session)) else row

/-- The store with other rows in one table. -/
def withRows (s : Store) (t : Table) (rows : Rows) : Store :=
  ⟨fun t' => if t' = t then rows else s.rows t'⟩

@[simp] theorem rows_withRows_self (s : Store) (t : Table) (rows : Rows) :
    (s.withRows t rows).rows t = rows :=
  if_pos rfl

theorem rows_withRows_of_ne {t t' : Table} (h : t' ≠ t) (s : Store) (rows : Rows) :
    (s.withRows t rows).rows t' = s.rows t' :=
  if_neg h

@[simp] theorem withRows_self (s : Store) (t : Table) : s.withRows t (s.rows t) = s := by
  have hrows : (s.withRows t (s.rows t)).rows = s.rows := by
    funext t'
    by_cases ht : t' = t
    · rw [ht, rows_withRows_self]
    · exact rows_withRows_of_ne ht s _
  rw [show s.withRows t (s.rows t) = ⟨(s.withRows t (s.rows t)).rows⟩ from rfl, hrows]

theorem putBytes_withRows (s : Store) (t : Table) (rows : Rows) (id : Id) (bytes : Bytes) :
    (s.withRows t rows).putBytes t id bytes = s.withRows t (rows.put id bytes) := by
  unfold putBytes
  rw [rows_withRows_self]
  unfold withRows
  congr 1
  funext t'
  by_cases ht : t' = t
  · rw [if_pos ht, if_pos ht]
  · rw [if_neg ht, if_neg ht]
    exact if_neg ht

theorem endAll_cons (now : Instant) (reason : String) (session : Session) (sessions : List Session)
    (s : Store) : endAll now reason (session :: sessions) s =
      s.write .sessions session.id (MessagePack.encode (closed now reason session)) >>=
        endAll now reason sessions :=
  List.foldlM_cons

theorem activeIn_cons {row : Id × Bytes} {session : Session} (h : decode row.2 = .ok session)
    (rest : Rows) : activeIn (row :: rest) =
      if session.status = .active then session :: activeIn rest else activeIn rest := by
  unfold activeIn
  rw [List.filterMap_cons, h]
  dsimp only [Except.toOption]
  rw [List.filter_cons]
  simp only [decide_eq_true_eq]

theorem sweptRow_of_active {row : Id × Bytes} {session : Session} (h : decode row.2 = .ok session)
    (hactive : session.status = .active) :
    sweptRow now reason row = (row.1, MessagePack.encode (closed now reason session)) := by
  rw [sweptRow, h]
  exact if_pos hactive

theorem sweptRow_of_closed {row : Id × Bytes} {session : Session} (h : decode row.2 = .ok session)
    (hclosed : ¬ session.status = .active) : sweptRow now reason row = row := by
  rw [sweptRow, h]
  exact if_neg hclosed

theorem fst_sweptRow (now : Instant) (reason : String) (row : Id × Bytes) :
    (sweptRow now reason row).1 = row.1 := by
  unfold sweptRow
  split
  · rfl
  · split_ifs <;> rfl

/-- The writes of the sweep replace the rows one after the other, if all of them are short enough. -/
theorem endAll_activeIn (s : Store) (now : Instant) (reason : String) :
    ∀ before after : Rows, (before ++ after : Rows).Ascending → (∀ row ∈ after, Holds Session row.1 row.2) →
      (∀ session ∈ activeIn after,
        (MessagePack.encode (closed now reason session)).length ≤ valueLimit) →
      endAll now reason (activeIn after) (s.withRows .sessions (before ++ after)) =
        .ok (s.withRows .sessions (before ++ after.map (sweptRow now reason))) := by
  intro before after
  induction after generalizing before with
  | nil => intro _ _ _; rfl
  | cons row rest ih =>
    intro hascending hholds hfits
    obtain ⟨id, old⟩ := row
    obtain ⟨⟨session, hread, hid⟩, hrest⟩ := List.forall_mem_cons.mp hholds
    obtain rfl : session.id = id := hid
    rw [activeIn_cons hread] at hfits ⊢
    by_cases hactive : session.status = .active
    · rw [if_pos hactive] at hfits ⊢
      obtain ⟨hfirst, hfits⟩ := List.forall_mem_cons.mp hfits
      have hput := Rows.put_between hascending (MessagePack.encode (closed now reason session))
      have hascending' := hput ▸ Rows.ascending_put hascending session.id
        (MessagePack.encode (closed now reason session))
      have hnext := ih (before ++ [(session.id, MessagePack.encode (closed now reason session))])
      rw [List.append_assoc, List.append_assoc] at hnext
      rw [endAll_cons, write_eq_ok_iff.mpr ⟨hfirst, rfl⟩, putBytes_withRows, hput, List.map_cons,
        sweptRow_of_active hread hactive]
      exact hnext hascending' hrest hfits
    · rw [if_neg hactive] at hfits ⊢
      have hnext := ih (before ++ [(session.id, old)])
      rw [List.append_assoc, List.append_assoc] at hnext
      rw [List.map_cons, sweptRow_of_closed hread hactive]
      exact hnext hascending hrest hfits

/-- One form that is too long makes the sweep fail. -/
theorem endAll_of_tooLong {now : Instant} {reason : String} {active : List Session}
    (h : ∃ session ∈ active, valueLimit < (MessagePack.encode (closed now reason session)).length) :
    ∀ s : Store, ∃ length > valueLimit, endAll now reason active s = .error (.tooLong length) := by
  induction active with
  | nil =>
    obtain ⟨session, hmem, -⟩ := h
    cases hmem
  | cons first active ih =>
    intro s
    rw [endAll_cons]
    by_cases hfirst : (MessagePack.encode (closed now reason first)).length ≤ valueLimit
    · obtain ⟨session, hmem, hlong⟩ := h
      have hmore : session ∈ active := by
        rcases List.mem_cons.mp hmem with rfl | hmem
        · exact absurd hfirst (Nat.not_le_of_lt hlong)
        · exact hmem
      rw [write_eq_ok_iff.mpr ⟨hfirst, rfl⟩]
      exact ih ⟨session, hmore, hlong⟩ _
    · refine ⟨_, Nat.lt_of_not_le hfirst, ?_⟩
      rw [write, if_neg hfirst]
      rfl

/-! ### What the sweep comes to -/

/-- A row that does not decode makes reading all rows fail. -/
theorem decodeAll_of_undecodable {α : Type} [Record α] {rows : Rows}
    (h : ∃ row ∈ rows, (MessagePack.decode? row.2 : Option α) = none) :
    decodeAll α rows = .error .undecodable := by
  induction rows with
  | nil =>
    obtain ⟨row, hmem, -⟩ := h
    cases hmem
  | cons first rest ih =>
    unfold decodeAll at ih ⊢
    rw [List.mapM_cons]
    rcases hfirst : (MessagePack.decode? first.2 : Option α) with _ | a
    · have hdecode : (decode first.2 : Except StoreError α) = .error .undecodable := by rw [decode, hfirst]
      dsimp only
      rw [hdecode]
      rfl
    · have hdecode : (decode first.2 : Except StoreError α) = .ok a := by rw [decode, hfirst]
      obtain ⟨row, hmem, hbad⟩ := h
      have hrest : row ∈ rest := by
        rcases List.mem_cons.mp hmem with rfl | hmem
        · rw [hfirst] at hbad
          cases hbad
        · exact hmem
      dsimp only
      rw [hdecode, ih ⟨row, hrest, hbad⟩]
      rfl

theorem closeActiveSessions_of_undecodable
    (h : ∃ row ∈ s.rows .sessions, (MessagePack.decode? row.2 : Option Session) = none) :
    s.closeActiveSessions now reason = .error .undecodable := by
  rw [closeActiveSessions, decodeAll_of_undecodable h]
  rfl

/-- In a store whose rows stand for records, the sweep is its writes. -/
theorem WellKept.closeActiveSessions_eq (h : WellKept s) (now : Instant) (reason : String) :
    s.closeActiveSessions now reason =
      (endAll now reason (activeIn (s.rows .sessions)) s).map
        fun s' => (s', (activeIn (s.rows .sessions)).length) := by
  rw [closeActiveSessions, decodeAll_eq_ok (h.decodes .sessions)]
  show (endAll now reason (activeIn (s.rows .sessions)) s >>= _) = _
  rcases endAll now reason (activeIn (s.rows .sessions)) s with e | s' <;> rfl

/-- The store after the sweep. -/
def swept (s : Store) (now : Instant) (reason : String) : Store :=
  s.withRows .sessions ((s.rows .sessions).map (sweptRow now reason))

theorem closeActiveSessions_eq_ok (hkept : WellKept s) (hordered : s.Ordered)
    (hfits : ∀ session ∈ activeIn (s.rows .sessions),
      (MessagePack.encode (closed now reason session)).length ≤ valueLimit) :
    s.closeActiveSessions now reason = .ok (s.swept now reason, (activeIn (s.rows .sessions)).length) := by
  have hfold := endAll_activeIn s now reason [] (s.rows .sessions) (hordered .sessions)
    (fun row hrow => hkept.holds rfl hrow) hfits
  rw [List.nil_append, withRows_self] at hfold
  rw [hkept.closeActiveSessions_eq, hfold]
  rfl

theorem mem_activeIn {rows : Rows} {session : Session} : session ∈ activeIn rows ↔
    ∃ row ∈ rows, decode row.2 = .ok session ∧ session.status = .active := by
  unfold activeIn
  rw [List.mem_filter, List.mem_filterMap, decide_eq_true_eq]
  constructor
  · rintro ⟨⟨row, hrow, hread⟩, hactive⟩
    refine ⟨row, hrow, ?_, hactive⟩
    rcases hdecode : (decode row.2 : Except StoreError Session) with e | found
    · rw [hdecode] at hread
      cases hread
    · rw [hdecode] at hread
      cases hread
      rfl
  · rintro ⟨row, hrow, hread, hactive⟩
    exact ⟨⟨row, hrow, by rw [hread]; rfl⟩, hactive⟩

/-- The active sessions have ended for the reason at this time, and nothing else has changed. -/
structure Swept (s : Store) (now : Instant) (reason : String) (s' : Store) : Prop where
  ended : ∀ id session, s.session id = .ok (some session) → session.status = .active →
    s'.session id =
      .ok (some { session with status := .closed, error := reason, stoppedAt := some now })
  /-- The rows of the other sessions stay byte for byte. -/
  kept : ∀ id session, s.session id = .ok (some session) → session.status = .closed →
    (s'.rows .sessions).get? id = (s.rows .sessions).get? id
  /-- There are no more rows than before. -/
  ids : (s'.rows .sessions).map Prod.fst = (s.rows .sessions).map Prod.fst
  noneActive : ∀ id session, s'.session id = .ok (some session) → session.status = .closed
  tables : ∀ t, t ≠ .sessions → s'.rows t = s.rows t

/-- A swept row stands for a session that is not active. -/
theorem decode_sweptRow {row : Id × Bytes} {session : Session} (hread : decode row.2 = .ok session)
    (hfits : session.status = .active →
      (MessagePack.encode (closed now reason session)).length ≤ valueLimit) :
    decode (sweptRow now reason row).2 =
      .ok (if session.status = .active then closed now reason session else session) := by
  by_cases hactive : session.status = .active
  · rw [if_pos hactive, sweptRow_of_active hread hactive]
    exact decode_encode _ (hfits hactive)
  · rw [if_neg hactive, sweptRow_of_closed hread hactive, hread]

theorem swept_of_fits (hkept : WellKept s) (hordered : s.Ordered)
    (hordered' : (s.swept now reason).Ordered)
    (hfits : ∀ session ∈ activeIn (s.rows .sessions),
      (MessagePack.encode (closed now reason session)).length ≤ valueLimit) :
    Swept s now reason (s.swept now reason) := by
  have hrows : (s.swept now reason).rows .sessions = (s.rows .sessions).map (sweptRow now reason) :=
    rows_withRows_self s .sessions _
  have hread {row : Id × Bytes} {session : Session} (hrow : row ∈ s.rows .sessions)
      (h : decode row.2 = .ok session) : decode (sweptRow now reason row).2 =
        .ok (if session.status = .active then closed now reason session else session) :=
    decode_sweptRow h fun hactive => hfits session (mem_activeIn.mpr ⟨row, hrow, h, hactive⟩)
  refine ⟨fun id session hget hactive => ?_, fun id session hget hclosed => ?_, ?_,
    fun id session hget => ?_, fun t ht => rows_withRows_of_ne ht s _⟩
  · obtain ⟨row, hrow, rfl, hdecode⟩ := hordered.get_eq_some_iff.mp hget
    refine hordered'.get_eq_some_iff.mpr ⟨sweptRow now reason row, hrows ▸ List.mem_map_of_mem hrow,
      fst_sweptRow now reason row, ?_⟩
    rw [hread hrow hdecode, if_pos hactive]
    rfl
  · obtain ⟨row, hrow, rfl, hdecode⟩ := hordered.get_eq_some_iff.mp hget
    have hsame : sweptRow now reason row = row := sweptRow_of_closed hdecode (by rw [hclosed]; decide)
    have hrow' : row ∈ (s.swept now reason).rows .sessions :=
      hrows ▸ List.mem_map.mpr ⟨row, hrow, hsame⟩
    rw [(Rows.get?_eq_some_iff (hordered .sessions)).mpr hrow,
      (Rows.get?_eq_some_iff (hordered' .sessions)).mpr hrow']
  · rw [hrows, List.map_map]
    exact List.map_congr_left fun row _ => fst_sweptRow now reason row
  · obtain ⟨row', hrow', rfl, hdecode'⟩ := hordered'.get_eq_some_iff.mp hget
    rw [hrows] at hrow'
    obtain ⟨row, hrow, rfl⟩ := List.mem_map.mp hrow'
    obtain ⟨before, hdecode⟩ := hkept.decodes .sessions row hrow
    rw [hread hrow hdecode, Except.ok.injEq] at hdecode'
    subst hdecode'
    split_ifs with hactive
    · rfl
    · cases hstatus : before.status with
      | active => exact absurd hstatus hactive
      | closed => rfl

/-- Where no session is active, the sweep does nothing. -/
theorem closeActiveSessions_of_noneActive (hkept : WellKept s) (hordered : s.Ordered)
    (hnone : ∀ id session, s.session id = .ok (some session) → session.status = .closed) :
    s.closeActiveSessions now reason = .ok (s, 0) := by
  have hempty : activeIn (s.rows .sessions) = [] := by
    rw [List.eq_nil_iff_forall_not_mem]
    intro session hmem
    obtain ⟨row, hrow, hread, hactive⟩ := mem_activeIn.mp hmem
    have hclosed := hnone row.1 session (hordered.get_eq_some_iff.mpr ⟨row, hrow, rfl, hread⟩)
    rw [hactive] at hclosed
    cases hclosed
  rw [hkept.closeActiveSessions_eq, hempty]
  rfl

/-- In a store that comes about by its operations, the sweep ends all active sessions and nothing else, and
tells how many they were; a second one finds none. Only a reason of about 3 GiB can make it fail. In any
store at all, a session row that does not decode makes it fail. A sweep that fails changes nothing. -/
theorem sweep_ends_active (s : Store) (now : Instant) (reason : String) :
    (Reachable s →
      (∃ s', s.closeActiveSessions now reason =
          .ok (s', (s.readable Session .sessions).countP (·.status = .active)) ∧
        Swept s now reason s' ∧
        ∀ now' reason', s'.closeActiveSessions now' reason' = .ok (s', 0)) ∨
      (valueLimit < (Text.utf8 reason).length + 512 ∧
        (∃ length > valueLimit, s.closeActiveSessions now reason = .error (.tooLong length)) ∧
        (Operation.closeActiveSessions now reason).tried s = s)) ∧
    ((∃ row ∈ s.rows .sessions, (MessagePack.decode? row.2 : Option Session) = none) →
      s.closeActiveSessions now reason = .error .undecodable ∧
        (Operation.closeActiveSessions now reason).tried s = s) := by
  have hunchanged {e : StoreError} (h : s.closeActiveSessions now reason = .error e) :
      (Operation.closeActiveSessions now reason).tried s = s := by
    rw [Operation.tried, Operation.run, h]
    rfl
  constructor
  · intro hreach
    have hkept := wellKept_of_reachable hreach
    have hordered := ordered_of_reachable hreach
    by_cases hfits : ∀ session ∈ activeIn (s.rows .sessions),
        (MessagePack.encode (closed now reason session)).length ≤ valueLimit
    · left
      have hclose := closeActiveSessions_eq_ok hkept hordered hfits
      have hrun : (Operation.closeActiveSessions now reason).run s = .ok (s.swept now reason) := by
        rw [Operation.run, hclose]
        rfl
      have hreach' := hreach.step _ hrun
      have hordered' := ordered_of_reachable hreach'
      have hswept := swept_of_fits hkept hordered hordered' hfits
      refine ⟨s.swept now reason, ?_, hswept, fun now' reason' =>
        closeActiveSessions_of_noneActive (wellKept_of_reachable hreach') hordered' hswept.noneActive⟩
      rw [hclose, List.countP_eq_length_filter]
      rfl
    · right
      simp only [not_forall, Nat.not_le] at hfits
      obtain ⟨session, hmem, hlong⟩ := hfits
      obtain ⟨length, hlength, hfold⟩ := endAll_of_tooLong ⟨session, hmem, hlong⟩ s
      have hfail : s.closeActiveSessions now reason = .error (.tooLong length) := by
        rw [hkept.closeActiveSessions_eq, hfold]
        rfl
      have hbound := length_encode_closed now reason session
      exact ⟨by omega, ⟨length, hlength, hfail⟩, hunchanged hfail⟩
  · intro hbad
    have hfail : s.closeActiveSessions now reason = .error .undecodable :=
      closeActiveSessions_of_undecodable hbad
    exact ⟨hfail, hunchanged hfail⟩

/-- Two of three sessions are still active. The same table with a torn row is not swept at all. -/
theorem sweep_ends_active_two_of_three :
    let ops : List Operation := [.createSession .epoch 7 1, .createSession .epoch 7 2,
      .createSession .epoch 8 1, .closeSession .epoch 2 "gone"]
    let s := ops.foldl Operation.tried empty
    let torn := s.putBytes .sessions 2 [0x87, 0xA2]
    s.Reachable ∧
      (∃ s', s.closeActiveSessions .epoch "halted" = .ok (s', 2) ∧ Swept s .epoch "halted" s' ∧
        s'.closeActiveSessions .epoch "again" = .ok (s', 0)) ∧
      (∃ row ∈ torn.rows .sessions, (MessagePack.decode? row.2 : Option Session) = none) ∧
      torn.closeActiveSessions .epoch "halted" = .error .undecodable := by
  intro ops s torn
  have hreach : s.Reachable :=
    ops.foldlRecOn Operation.tried .empty fun _ h op _ => reachable_tried h op
  have hcount : (s.readable Session .sessions).countP (·.status = .active) = 2 := by decide +kernel
  have htorn : ∃ row ∈ torn.rows .sessions, (MessagePack.decode? row.2 : Option Session) = none :=
    ⟨(2, [0x87, 0xA2]), by decide +kernel, by decide +kernel⟩
  refine ⟨hreach, ?_, htorn, ((sweep_ends_active torn .epoch "halted").2 htorn).1⟩
  rcases (sweep_ends_active s .epoch "halted").1 hreach with ⟨s', hclose, hswept, hagain⟩ | ⟨hlong, -⟩
  · exact ⟨s', hcount ▸ hclose, hswept, hagain .epoch "again"⟩
  · exact absurd hlong (by decide +kernel)

end Store

end Gatehouse
