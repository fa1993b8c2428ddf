import Gatehouse.Proofs.Access.Decision
import Gatehouse.Proofs.Store.FreshId
import Mathlib.Logic.Function.Basic

/-!
# What is read is what was last written

`reads_last_written`: after any run of operations on an empty store, every row stands for a record that
carries the row's identifier, nothing fails because a row does not decode, and what is read under an
identifier is the record last written under it. Pinning a host's key changes that field of the host alone,
and ending a session its status, error and time.

Proof. The journal of a run has the records that its operations write, in order. As written forms are
read back, an operation moves what is read under each identifier to the last record that it writes there
(`writes_run`), and so does a run with its journal (`writes_foldl`). In an empty store nothing is read, so
that only the journal is left.
-/

namespace Gatehouse

/-- The records of a table. -/
@[reducible] def Table.Entry : Table → Type
  | .users => User
  | .userKeys => UserKey
  | .userGroups | .hostGroups => Group
  | .acls => Acl
  | .hosts => Host
  | .sshKeys => SshKey
  | .sessions => Session

namespace Store

open Time (Instant)

instance entryIdentified : (t : Table) → Identified t.Entry
  | .users => inferInstanceAs (Identified User)
  | .userKeys => inferInstanceAs (Identified UserKey)
  | .userGroups | .hostGroups => inferInstanceAs (Identified Group)
  | .acls => inferInstanceAs (Identified Acl)
  | .hosts => inferInstanceAs (Identified Host)
  | .sshKeys => inferInstanceAs (Identified SshKey)
  | .sessions => inferInstanceAs (Identified Session)

instance entryStorable : (t : Table) → Storable t.Entry
  | .users => inferInstanceAs (Storable User)
  | .userKeys => inferInstanceAs (Storable UserKey)
  | .userGroups | .hostGroups => inferInstanceAs (Storable Group)
  | .acls => inferInstanceAs (Storable Acl)
  | .hosts => inferInstanceAs (Storable Host)
  | .sshKeys => inferInstanceAs (Storable SshKey)
  | .sessions => inferInstanceAs (Storable Session)

theorem holdsIn_eq (t : Table) : HoldsIn t = Holds t.Entry := by
  cases t <;> rfl

variable {s s' s'' : Store} {t : Table} {id : Id}

/-! ### Journals -/

/-- The records that are written into each table, in order. -/
abbrev Journal := (t : Table) → List t.Entry

/-- Nothing is written. -/
def Journal.blank : Journal := fun _ => []

/-- Records are written into one table. -/
def Journal.only (t : Table) (written : List t.Entry) : Journal :=
  Function.update Journal.blank t written

/-- One journal after the other. -/
def Journal.append (j j' : Journal) : Journal := fun t => j t ++ j' t

theorem Journal.only_nil (t : Table) : only t [] = blank :=
  Function.update_eq_self t blank

theorem Journal.only_append (t : Table) (written more : List t.Entry) :
    (only t written).append (only t more) = only t (written ++ more) := by
  funext t'
  by_cases ht : t' = t
  · subst ht
    simp [append, only]
  · simp [append, only, Function.update_of_ne ht, blank]

/-- The last of some records with an identifier. -/
def lastWith {α : Type} [Identified α] (id : Id) (written : List α) : Option α :=
  (written.filter fun a => Identified.id a = id).getLast?

theorem lastWith_append {α : Type} [Identified α] (id : Id) (written more : List α) :
    lastWith id (written ++ more) = (lastWith id more).or (lastWith id written) := by
  simp only [lastWith, List.filter_append, List.getLast?_append]

theorem lastWith_singleton {α : Type} [Identified α] (id : Id) (a : α) :
    lastWith id [a] = if Identified.id a = id then some a else none := by
  by_cases h : Identified.id a = id <;> simp [lastWith, h]

/-- The second store has what is written, and else what is in the first one. -/
def Writes (s : Store) (j : Journal) (s' : Store) : Prop :=
  ∀ t id, s'.get t.Entry t id =
    (lastWith id (j t)).elim (s.get t.Entry t id) fun a => .ok (some a)

theorem Writes.blank (s : Store) : Writes s .blank s := fun _ _ => rfl

theorem Writes.append {j j' : Journal} (h : Writes s j s') (h' : Writes s' j' s'') :
    Writes s (j.append j') s'' := by
  intro t id
  rw [h' t id, h t id, Journal.append, lastWith_append]
  cases lastWith id (j' t) <;> rfl

theorem writes_write {a : t.Entry} (hwrite : s.write t (Identified.id a) (MessagePack.encode a) = .ok s') :
    Writes s (.only t [a]) s' := by
  obtain ⟨hfits, rfl⟩ := write_eq_ok_iff.mp hwrite
  intro t' id'
  by_cases ht : t' = t
  · subst ht
    rw [Journal.only, Function.update_self, lastWith_singleton]
    by_cases hid : Identified.id a = id'
    · subst hid
      rw [if_pos rfl]
      exact get_putBytes_self hfits
    · rw [if_neg hid, get_putBytes, if_neg fun h => hid h.2.symm]
      rfl
  · rw [Journal.only, Function.update_of_ne ht, get_putBytes, if_neg fun h => ht h.1]
    rfl

/-! ### The records that operations write -/

/-- The record that stands under an identifier, if there is one. -/
def current (s : Store) (t : Table) (id : Id) : Option t.Entry :=
  match s.get t.Entry t id with
  | .ok found => found
  | .error _ => none

/-- The record as it is put, with a fresh identifier if it had none. -/
def named (s : Store) (t : Table) (a : t.Entry) : t.Entry :=
  if Identified.id a = 0 then Identified.withId a (s.rows t).freshId else a

/-- The first user who holds an invite. -/
def holder? (s : Store) (now : Instant) (token : String) : Option User :=
  (s.readable User .users).find? fun u => u.inviteIsValid now && u.inviteToken == token

/-- The records that an operation has written once it has succeeded. -/
def Operation.records (s : Store) : Operation → Journal
  | .putUser u => .only .users [s.named .users u]
  | .putUserKey k => .only .userKeys [s.named .userKeys k]
  | .putUserGroup g => .only .userGroups [s.named .userGroups g]
  | .putHostGroup g => .only .hostGroups [s.named .hostGroups g]
  | .putAcl a => .only .acls [s.named .acls a]
  | .putHost h => .only .hosts [s.named .hosts h]
  | .putSshKey k => .only .sshKeys [s.named .sshKeys k]
  | .redeemInvite now token key =>
    match s.holder? now token with
    | none => .blank
    | some u => .append (.only .userKeys [s.link now key u]) (.only .users [u.spent])
  | .pinHostKey id key =>
    .only .hosts ((s.current .hosts id).map fun h : Host => { h with hostKey := key }).toList
  | .createSession now userId hostId =>
    .only .sessions
      [s.named .sessions { id := 0, userId, hostId, status := .active, createdAt := now : Session }]
  | .closeSession now id error =>
    .only .sessions ((s.current .sessions id).map (closed now error)).toList
  | .closeActiveSessions now reason =>
    .only .sessions (((s.readable Session .sessions).filter (·.status = .active)).map (closed now reason))
  | .reopen => .blank

/-- The records that an operation writes. One that fails writes nothing. -/
def Operation.writes (s : Store) (op : Operation) : Journal :=
  match op.run s with
  | .ok _ => op.records s
  | .error _ => .blank

/-- The records that a run of operations writes. -/
def journal (s : Store) : List Operation → Journal
  | [] => .blank
  | op :: ops => (op.writes s).append (journal (op.tried s) ops)

/-! ### Reading every row -/

theorem findIn_eq_ok {α : Type} [Record α] {rows : Rows} (h : ∀ row ∈ rows, ∃ a : α, decode row.2 = .ok a)
    (condition : α → Bool) : findIn condition rows =
      .ok ((rows.filterMap fun row => (decode row.2 : Except StoreError α).toOption).find? condition) := by
  induction rows with
  | nil => rfl
  | cons row rest ih =>
    obtain ⟨key, bytes⟩ := row
    obtain ⟨⟨a, ha⟩, hrest⟩ := List.forall_mem_cons.mp h
    dsimp only at ha
    rw [findIn_cons, ih hrest, ha, List.filterMap_cons, ha]
    simp only [Except.toOption, List.find?_cons]
    cases condition a <;> rfl

theorem decodeAll_eq_ok {α : Type} [Record α] {rows : Rows}
    (h : ∀ row ∈ rows, ∃ a : α, decode row.2 = .ok a) : decodeAll α rows =
      .ok (rows.filterMap fun row => (decode row.2 : Except StoreError α).toOption) := by
  induction rows with
  | nil => rfl
  | cons row rest ih =>
    obtain ⟨key, bytes⟩ := row
    obtain ⟨⟨a, ha⟩, hrest⟩ := List.forall_mem_cons.mp h
    dsimp only at ha
    have hmore := ih hrest
    unfold decodeAll at hmore ⊢
    rw [List.mapM_cons, List.filterMap_cons, hmore]
    dsimp only
    rw [ha]
    rfl

theorem WellKept.decodes (h : WellKept s) (t : Table) :
    ∀ row ∈ s.rows t, ∃ a : t.Entry, decode row.2 = .ok a := by
  intro row hrow
  obtain ⟨a, ha, -⟩ := h.holds (holdsIn_eq t) hrow
  exact ⟨a, ha⟩

theorem WellKept.find_eq_ok (h : WellKept s) (t : Table) (condition : t.Entry → Bool) :
    s.find t condition = .ok ((s.readable t.Entry t).find? condition) :=
  findIn_eq_ok (h.decodes t) condition

theorem WellKept.get_eq_ok (h : WellKept s) (t : Table) (id : Id) :
    s.get t.Entry t id = .ok (s.current t id) := by
  unfold current
  rcases h.get_cases (holdsIn_eq t) id with hnone | ⟨a, ha, -⟩
  · rw [hnone]
  · rw [ha]

/-! ### Operations write their records -/

theorem writes_put {a : t.Entry} {result : Store × t.Entry} (hput : s.put t a = .ok result) :
    Writes s (.only t [s.named t a]) result.1 := by
  unfold put at hput
  obtain ⟨s₁, hwrite, heq⟩ := exists_of_bind_eq_ok hput
  cases heq
  exact writes_write hwrite

theorem writes_modify (h : WellKept s) {change : t.Entry → t.Entry}
    (hchange : ∀ a, Identified.id (change a) = Identified.id a)
    (hmodify : s.modify t id change = .ok (some s')) :
    ∃ a, s.current t id = some a ∧ Writes s (.only t [change a]) s' := by
  unfold modify at hmodify
  obtain ⟨found, hget, hrest⟩ := exists_of_bind_eq_ok hmodify
  rcases found with _ | a
  · cases hrest
  · obtain ⟨s₁, hwrite, heq⟩ := exists_of_bind_eq_ok hrest
    cases heq
    have hid : Identified.id (change a) = id := (hchange a).trans (h.id_of_get (holdsIn_eq t) hget)
    rw [← hid] at hwrite
    rw [h.get_eq_ok, Except.ok.injEq] at hget
    exact ⟨a, hget, writes_write hwrite⟩

theorem writes_pinHostKey (h : WellKept s) {key : Bytes} (hpin : s.pinHostKey id key = .ok s') :
    ∃ host : Host, s.current .hosts id = some host ∧
      Writes s (.only .hosts [{ host with hostKey := key }]) s' := by
  unfold pinHostKey at hpin
  obtain ⟨found, hmodify, hrest⟩ := exists_of_bind_eq_ok hpin
  rcases found with _ | s₁
  · cases hrest
  · cases hrest
    exact writes_modify (t := .hosts) h (fun _ => rfl) hmodify

theorem writes_closeSession (h : WellKept s) {now : Instant} {error : String}
    (hclose : s.closeSession now id error = .ok s') :
    ∃ session : Session, s.current .sessions id = some session ∧
      Writes s (.only .sessions [closed now error session]) s' := by
  unfold closeSession at hclose
  obtain ⟨found, hmodify, hrest⟩ := exists_of_bind_eq_ok hclose
  rcases found with _ | s₁
  · cases hrest
  · cases hrest
    exact writes_modify (t := .sessions) h (fun _ => rfl) hmodify

theorem writes_foldlM_closed {now : Instant} {reason : String} {active : List Session} :
    ∀ {s : Store}, active.foldlM (fun s session =>
      s.write .sessions session.id (MessagePack.encode (closed now reason session))) s = .ok s' →
      Writes s (.only .sessions (active.map (closed now reason))) s' := by
  induction active with
  | nil =>
    intro s hfold
    cases hfold
    rw [List.map_nil, Journal.only_nil]
    exact .blank s'
  | cons session active ih =>
    intro s hfold
    rw [List.foldlM_cons] at hfold
    obtain ⟨s₁, hwrite, hrest⟩ := exists_of_bind_eq_ok hfold
    have hfirst : Writes s (.only .sessions [closed now reason session]) s₁ :=
      writes_write (t := .sessions) hwrite
    have hboth := hfirst.append (ih hrest)
    rwa [Journal.only_append, List.singleton_append, ← List.map_cons] at hboth

theorem writes_closeActiveSessions (h : WellKept s) {now : Instant} {reason : String}
    {result : Store × Nat} (hclose : s.closeActiveSessions now reason = .ok result) :
    Writes s (.only .sessions
      (((s.readable Session .sessions).filter (·.status = .active)).map (closed now reason))) result.1 := by
  unfold closeActiveSessions at hclose
  obtain ⟨sessions, hall, hrest⟩ := exists_of_bind_eq_ok hclose
  rw [decodeAll_eq_ok (h.decodes .sessions)] at hall
  cases hall
  obtain ⟨s₁, hfold, heq⟩ := exists_of_bind_eq_ok hrest
  cases heq
  exact writes_foldlM_closed hfold

theorem writes_redeemInvite (h : WellKept s) {now : Instant} {token : String} {key : NewUserKey}
    {result : Store × Option User} (hredeem : s.redeemInvite now token key = .ok result) :
    Writes s ((Operation.redeemInvite now token key).records s) result.1 := by
  by_cases htoken : token = ""
  · have hnone : s.holder? now token = none := by
      rw [holder?, List.find?_eq_none]
      intro u _
      rw [invited_iff]
      exact fun hu => hu.1 htoken
    rw [redeemInvite, if_pos htoken] at hredeem
    cases hredeem
    simp only [Operation.records, hnone]
    exact .blank s
  have hfind : s.find .users _ = .ok (s.holder? now token) := h.find_eq_ok .users _
  rcases hfound : s.holder? now token with _ | u
  · rw [hfound] at hfind
    rw [redeemInvite, if_neg htoken, hfind] at hredeem
    cases hredeem
    simp only [Operation.records, hfound]
    exact .blank s
  · rw [hfound] at hfind
    rw [redeemInvite_of_find htoken hfind] at hredeem
    obtain ⟨s₁, hlink, hrest⟩ := exists_of_bind_eq_ok hredeem
    obtain ⟨s₂, huser, heq⟩ := exists_of_bind_eq_ok hrest
    cases heq
    simp only [Operation.records, hfound]
    exact (writes_write (t := .userKeys) hlink).append (writes_write (t := .users) huser)

theorem writes_run (h : WellKept s) {op : Operation} (hrun : op.run s = .ok s') :
    Writes s (op.records s) s' := by
  cases op with
  | putUser | putUserKey | putUserGroup | putHostGroup | putAcl | putHost | putSshKey | createSession =>
    obtain ⟨result, hput, rfl⟩ := exists_of_map_eq_ok hrun
    exact writes_put hput
  | redeemInvite =>
    obtain ⟨result, hredeem, rfl⟩ := exists_of_map_eq_ok hrun
    exact writes_redeemInvite h hredeem
  | pinHostKey =>
    obtain ⟨host, hhost, hwrites⟩ := writes_pinHostKey h hrun
    rw [Operation.records, hhost]
    exact hwrites
  | closeSession =>
    obtain ⟨session, hsession, hwrites⟩ := writes_closeSession h hrun
    rw [Operation.records, hsession]
    exact hwrites
  | closeActiveSessions =>
    obtain ⟨result, hclose, rfl⟩ := exists_of_map_eq_ok hrun
    exact writes_closeActiveSessions h hclose
  | reopen =>
    cases hrun
    exact .blank s

theorem writes_tried (h : WellKept s) (op : Operation) : Writes s (op.writes s) (op.tried s) := by
  unfold Operation.writes Operation.tried
  rcases hrun : op.run s with e | s'
  · exact .blank s
  · exact writes_run h hrun

theorem wellKept_tried (h : WellKept s) (op : Operation) : WellKept (op.tried s) := by
  unfold Operation.tried
  rcases hrun : op.run s with e | s'
  · exact h
  · exact wellKept_run h op hrun

theorem wellKept_foldl (ops : List Operation) :
    ∀ {s : Store}, WellKept s → WellKept (ops.foldl Operation.tried s) := by
  induction ops with
  | nil => exact fun h => h
  | cons op ops ih => exact fun h => ih (wellKept_tried h op)

theorem writes_foldl (ops : List Operation) :
    ∀ {s : Store}, WellKept s → Writes s (journal s ops) (ops.foldl Operation.tried s) := by
  induction ops with
  | nil => exact fun {s} _ => .blank s
  | cons op ops ih => exact fun h => (writes_tried h op).append (ih (wellKept_tried h op))

/-! ### Nothing fails to decode -/

theorem bind_ne_error {ε α β : Type} {x : Except ε α} {f : α → Except ε β} {e : ε}
    (hx : x ≠ .error e) (hf : ∀ a, x = .ok a → f a ≠ .error e) : x >>= f ≠ .error e := by
  rcases x with e' | a
  · simpa [bind, Except.bind] using hx
  · exact hf a rfl

theorem map_ne_error {ε α β : Type} {x : Except ε α} {f : α → β} {e : ε} (hx : x ≠ .error e) :
    x.map f ≠ .error e := by
  rcases x with e' | a
  · simpa [Except.map] using hx
  · simp [Except.map]

theorem write_ne_undecodable (s : Store) (t : Table) (id : Id) (bytes : Bytes) :
    s.write t id bytes ≠ .error .undecodable := by
  unfold write
  split_ifs <;> simp

theorem put_ne_undecodable {α : Type} [Identified α] (s : Store) (t : Table) (a : α) :
    s.put t a ≠ .error .undecodable := by
  unfold put
  exact bind_ne_error (write_ne_undecodable _ _ _ _) fun _ _ => nofun

theorem WellKept.modify_ne_undecodable (h : WellKept s) (change : t.Entry → t.Entry) :
    s.modify t id change ≠ .error .undecodable := by
  unfold modify
  rw [h.get_eq_ok]
  refine bind_ne_error nofun fun found _ => ?_
  cases found with
  | none => nofun
  | some a => exact bind_ne_error (write_ne_undecodable _ _ _ _) fun _ _ => nofun

theorem foldlM_closed_ne_undecodable {now : Instant} {reason : String} (active : List Session) :
    ∀ s : Store, active.foldlM (fun s session =>
      s.write .sessions session.id (MessagePack.encode (closed now reason session))) s ≠
      .error .undecodable := by
  induction active with
  | nil => exact fun _ => nofun
  | cons session active ih =>
    intro s
    rw [List.foldlM_cons]
    exact bind_ne_error (write_ne_undecodable _ _ _ _) fun s₁ _ => ih s₁

theorem WellKept.run_ne_undecodable (h : WellKept s) (op : Operation) :
    op.run s ≠ .error .undecodable := by
  cases op with
  | putUser | putUserKey | putUserGroup | putHostGroup | putAcl | putHost | putSshKey | createSession =>
    exact map_ne_error (put_ne_undecodable _ _ _)
  | redeemInvite now token key =>
    apply map_ne_error
    unfold redeemInvite
    split_ifs
    · nofun
    · rw [h.find_eq_ok .users fun u : User => u.inviteIsValid now && u.inviteToken == token]
      refine bind_ne_error nofun fun found _ => ?_
      cases found with
      | none => nofun
      | some u =>
        refine bind_ne_error (write_ne_undecodable _ _ _ _) fun _ _ => ?_
        exact bind_ne_error (write_ne_undecodable _ _ _ _) fun _ _ => nofun
  | pinHostKey id key =>
    refine bind_ne_error (h.modify_ne_undecodable (t := .hosts) _) fun found _ => ?_
    cases found <;> nofun
  | closeSession now id error =>
    refine bind_ne_error (h.modify_ne_undecodable (t := .sessions) _) fun found _ => ?_
    cases found <;> nofun
  | closeActiveSessions now reason =>
    apply map_ne_error
    unfold closeActiveSessions
    rw [decodeAll_eq_ok (h.decodes .sessions)]
    refine bind_ne_error nofun fun sessions _ => ?_
    exact bind_ne_error (foldlM_closed_ne_undecodable _ _) fun _ _ => nofun
  | reopen => nofun

/-- A change of one record, and of nothing else. -/
structure Changed (s s' : Store) (t : Table) (id : Id) (change : t.Entry → t.Entry) : Prop where
  read : ∃ a, s.get t.Entry t id = .ok (some a) ∧ s'.get t.Entry t id = .ok (some (change a))
  others : ∀ t' id', ¬ (t' = t ∧ id' = id) → s'.get t'.Entry t' id' = s.get t'.Entry t' id'

theorem changed_of_writes (h : WellKept s) {change : t.Entry → t.Entry}
    (hchange : ∀ a, Identified.id (change a) = Identified.id a) {a : t.Entry}
    (ha : s.current t id = some a) (hwrites : Writes s (.only t [change a]) s') :
    Changed s s' t id change := by
  have hget : s.get t.Entry t id = .ok (some a) := (h.get_eq_ok t id).trans (by rw [ha])
  have hid : Identified.id (change a) = id := (hchange a).trans (h.id_of_get (holdsIn_eq t) hget)
  refine ⟨⟨a, hget, ?_⟩, fun t' id' hother => ?_⟩
  · rw [hwrites t id, Journal.only, Function.update_self, lastWith_singleton, if_pos hid]
    rfl
  · rw [hwrites t' id', Journal.only]
    by_cases ht : t' = t
    · subst ht
      rw [Function.update_self, lastWith_singleton, if_neg fun h => hother ⟨rfl, h.symm.trans hid⟩]
      rfl
    · rw [Function.update_of_ne ht]
      rfl

/-- After any run of operations on an empty store each row stands for a record that carries the row's
identifier, so that no operation and no look-up fails to decode one; what is read is what was last
written; and the operations that change a host or a session change only what they are about. -/
theorem reads_last_written (ops : List Operation) :
    let s := ops.foldl Operation.tried empty
    WellKept s ∧
    (∀ op : Operation, op.run s ≠ .error .undecodable) ∧
    (∀ t (condition : t.Entry → Bool), ∃ found, s.find t condition = .ok found) ∧
    (∀ (u : User) (h : Host), (∃ loaded, s.userGroups u = .ok loaded) ∧ ∃ loaded, s.hostGroups h = .ok loaded) ∧
    (∀ t id, s.get t.Entry t id = .ok (lastWith id (journal empty ops t))) ∧
    (∀ id key s', s.pinHostKey id key = .ok s' →
      Changed s s' .hosts id fun h : Host => { h with hostKey := key }) ∧
    (∀ now id error s', s.closeSession now id error = .ok s' →
      Changed s s' .sessions id fun session : Session =>
        { session with status := .closed, error, stoppedAt := some now }) := by
  intro s
  have hempty : WellKept empty := wellKept_of_reachable .empty
  have h : WellKept s := wellKept_foldl ops hempty
  refine ⟨h, h.run_ne_undecodable, fun t condition => ⟨_, h.find_eq_ok t condition⟩, fun u host => ?_,
    fun t id => ?_, fun id key s' hpin => ?_, fun now id error s' hclose => ?_⟩
  · obtain ⟨loaded, next, huser, -⟩ := Access.loadGroups_mem h (t := .userGroups) rfl u.groupIds 0
    obtain ⟨loaded', next', hhost, -⟩ := Access.loadGroups_mem h (t := .hostGroups) rfl host.groupIds 0
    exact ⟨⟨loaded, by rw [userGroups, huser]; rfl⟩, loaded', by rw [hostGroups, hhost]; rfl⟩
  · rw [writes_foldl ops hempty t id]
    cases lastWith id (journal empty ops t) <;> rfl
  · obtain ⟨host, hhost, hwrites⟩ := writes_pinHostKey h hpin
    exact changed_of_writes (t := .hosts) h (fun _ => rfl) hhost hwrites
  · obtain ⟨session, hsession, hwrites⟩ := writes_closeSession h hclose
    exact changed_of_writes (t := .sessions) h (fun _ => rfl) hsession hwrites

/-- A host is pinned, one of its sessions ends, and the other one is ended by the sweep. -/
theorem reads_last_written_pinned_and_swept :
    let web : Host := { id := 0, name := "web", addr := "10.0.0.1", user := "root" }
    let ended : Session :=
      { id := 1, userId := 7, hostId := 1, status := .closed, error := "gone", createdAt := .epoch,
        stoppedAt := some .epoch }
    let ops : List Operation := [.putHost web, .createSession .epoch 7 1, .pinHostKey 1 [0x4B],
      .createSession .epoch 7 1, .closeSession .epoch 1 "gone", .closeActiveSessions .epoch "halted"]
    let s := ops.foldl Operation.tried empty
    (journal empty ops .hosts).map Host.hostKey = [[], [0x4B]] ∧
      (journal empty ops .sessions).map Session.id = [1, 2, 1, 2] ∧
      s.host 1 = .ok (some { web with id := 1, hostKey := [0x4B] }) ∧
      s.session 1 = .ok (some ended) ∧
      s.session 2 = .ok (some { ended with id := 2, error := "halted" }) := by
  intro web ended ops s
  obtain ⟨-, -, -, -, hread, -⟩ := reads_last_written ops
  refine ⟨by decide +kernel, by decide +kernel, (hread .hosts 1).trans ?_, (hread .sessions 1).trans ?_,
    (hread .sessions 2).trans ?_⟩
  all_goals exact congrArg Except.ok (by decide +kernel)

end Store

end Gatehouse
