import Gatehouse.Proofs.Store.Ordered

/-!
# Invites are redeemed once

`invite_redeemed_once`: an invite is redeemed exactly if some user holds it, no row before the first such
user's fails to decode, and the store's file takes the two new forms. Then that user's row loses the
invite, the key's row is added, and nothing else changes; otherwise nothing changes at all. However the
operations follow each other, no user's invite is redeemed twice unless the user is put anew.

Proof. What the search finds is the first user who holds the invite (`redeemInvite_eq_some_iff`). A user
without an invite stays without one, as the only operation that writes users is the redemption itself,
which takes the invite (`Spent.tried`); and who has none is not found (`Redeemable.not_spent`).
-/

namespace Gatehouse

open Time (Instant)

/-- The user without an invite. -/
def User.spent (u : User) : User :=
  { u with inviteToken := "", inviteExpiresAt := none }

/-- The user holds an invite with this token, which has not expired. -/
structure User.Invited (u : User) (now : Instant) (token : String) : Prop where
  holds : u.inviteToken = token
  nonempty : token ≠ ""
  unexpired : ∀ expiry, u.inviteExpiresAt = some expiry → now.isBefore expiry = true

namespace Store

variable {s s' : Store} {now : Instant} {token : String} {key : NewUserKey} {u u' : User}

/-! ### Redeeming -/

/-- The row that links a key to a user. -/
def link (s : Store) (now : Instant) (key : NewUserKey) (u : User) : UserKey where
  id := (s.rows .userKeys).freshId
  userId := u.id
  authorizedKey := key.authorizedKey
  keyBlob := key.keyBlob
  comment := key.comment
  createdAt := now

/-- The store with the key's link and without the user's invite. -/
def redeem (s : Store) (now : Instant) (key : NewUserKey) (u : User) : Store :=
  (s.putBytes .userKeys (s.link now key u).id (MessagePack.encode (s.link now key u))).putBytes
    .users u.id (MessagePack.encode u.spent)

/-- The user is the first who holds the invite, all users before decode, and the forms that are written
for this key are short enough. -/
structure Redeemable (s : Store) (now : Instant) (token : String) (key : NewUserKey) (u : User) :
    Prop where
  held : s.user u.id = .ok (some u)
  invited : u.Invited now token
  first : ∀ id < u.id, ∃ found, s.user id = .ok found ∧ ∀ v ∈ found, ¬ v.Invited now token
  linkFits : (MessagePack.encode (s.link now key u)).length ≤ valueLimit
  userFits : (MessagePack.encode u.spent).length ≤ valueLimit

/-- The store in which the user's invite has been redeemed for the key. -/
structure Redeemed (s : Store) (now : Instant) (key : NewUserKey) (u : User) (s' : Store) : Prop where
  /-- The link comes after all others. -/
  linkId : (s.rows .userKeys = [] ∧ (s.link now key u).id = 1) ∨
    ∃ last ∈ s.rows .userKeys, (∀ row ∈ s.rows .userKeys, row.1 ≤ last.1) ∧
      (s.link now key u).id = last.1 + 1
  linkRead : s'.get UserKey .userKeys (s.link now key u).id = .ok (some (s.link now key u))
  userRead : s'.user u.id = .ok (some u.spent)
  others : ∀ t id, ¬ (t = .userKeys ∧ id = (s.link now key u).id) → ¬ (t = .users ∧ id = u.id) →
    (s'.rows t).get? id = (s.rows t).get? id

theorem invited_iff : (u.inviteIsValid now && u.inviteToken == token) = true ↔
    token ≠ "" ∧ u.Invited now token := by
  rw [Bool.and_eq_true, beq_iff_eq, User.inviteIsValid, Bool.and_eq_true, decide_eq_true_iff,
    Option.all_eq_true]
  constructor
  · rintro ⟨⟨hne, hexpiry⟩, rfl⟩
    exact ⟨hne, rfl, hne, fun expiry h => hexpiry expiry h⟩
  · rintro ⟨hne, rfl, -, hexpiry⟩
    exact ⟨⟨hne, fun expiry h => hexpiry expiry h⟩, rfl⟩

/-- Once the user has been found, all that can fail is one of the two writes. -/
theorem redeemInvite_of_find (htoken : token ≠ "")
    (hfind : s.find .users (fun u : User => u.inviteIsValid now && u.inviteToken == token) =
      .ok (some u)) :
    s.redeemInvite now token key =
      s.write .userKeys (s.link now key u).id (MessagePack.encode (s.link now key u)) >>= fun s₁ =>
        s₁.write .users u.id (MessagePack.encode u.spent) >>= fun s₂ => .ok (s₂, some u.spent) := by
  rw [redeemInvite, if_neg htoken, hfind]
  rfl

theorem redeemInvite_eq_some_iff (hordered : s.Ordered) (hkeyed : s.Keyed User .users) :
    s.redeemInvite now token key = .ok (s', some u') ↔
      ∃ u, Redeemable s now token key u ∧ u' = u.spent ∧ s' = s.redeem now key u := by
  have hno (v : User) (hne : token ≠ "") :
      (v.inviteIsValid now && v.inviteToken == token) = false ↔ ¬ v.Invited now token := by
    rw [← Bool.not_eq_true, invited_iff, and_iff_right hne]
  constructor
  · intro h
    by_cases htoken : token = ""
    · rw [redeemInvite, if_pos htoken] at h
      cases h
    have hall := h
    unfold redeemInvite at hall
    rw [if_neg htoken] at hall
    obtain ⟨found, hfind, hrest⟩ := exists_of_bind_eq_ok hall
    rcases found with _ | u
    · cases hrest
    rw [redeemInvite_of_find htoken hfind] at h
    obtain ⟨s₁, hlink, hrest⟩ := exists_of_bind_eq_ok h
    obtain ⟨s₂, huser, heq⟩ := exists_of_bind_eq_ok hrest
    cases heq
    obtain ⟨hlinkFits, rfl⟩ := write_eq_ok_iff.mp hlink
    obtain ⟨huserFits, rfl⟩ := write_eq_ok_iff.mp huser
    obtain ⟨hheld, hinvited, hbefore⟩ := (find_eq_some_iff hordered hkeyed).mp hfind
    refine ⟨u, ⟨hheld, (invited_iff.mp hinvited).2, fun id hlt => ?_, hlinkFits, huserFits⟩, rfl, rfl⟩
    obtain ⟨found, hfound, hothers⟩ := hbefore id hlt
    exact ⟨found, hfound, fun v hv => (hno v htoken).mp (hothers v hv)⟩
  · rintro ⟨u, h, rfl, rfl⟩
    have htoken : token ≠ "" := h.invited.nonempty
    have hfind : s.find .users (fun u : User => u.inviteIsValid now && u.inviteToken == token) =
        .ok (some u) := by
      refine (find_eq_some_iff hordered hkeyed).mpr ⟨h.held, invited_iff.mpr ⟨htoken, h.invited⟩,
        fun id hlt => ?_⟩
      obtain ⟨found, hfound, hothers⟩ := h.first id hlt
      exact ⟨found, hfound, fun v hv => (hno v htoken).mpr (hothers v hv)⟩
    rw [redeemInvite_of_find htoken hfind, write_eq_ok_iff.mpr ⟨h.linkFits, rfl⟩]
    show write _ .users _ _ >>= _ = _
    rw [write_eq_ok_iff.mpr ⟨h.userFits, rfl⟩]
    rfl

theorem get_userKeys_redeem (h : Redeemable s now token key u) (id : Id) :
    (s.redeem now key u).get UserKey .userKeys id =
      if id = (s.link now key u).id then .ok (some (s.link now key u))
      else s.get UserKey .userKeys id := by
  have hother : ¬ (Table.userKeys = .users ∧ id = u.id) := fun h => nomatch h.1
  rw [redeem, get_putBytes, if_neg hother]
  by_cases hid : id = (s.link now key u).id
  · rw [if_pos hid, hid]
    exact get_putBytes_self h.linkFits
  · rw [if_neg hid, get_putBytes, if_neg fun h => hid h.2]

theorem user_redeem (h : Redeemable s now token key u) (id : Id) :
    (s.redeem now key u).user id = if id = u.id then .ok (some u.spent) else s.user id := by
  unfold redeem user
  by_cases hid : id = u.id
  · rw [if_pos hid, hid]
    exact get_putBytes_self h.userFits
  · rw [if_neg hid, get_putBytes, if_neg fun h => hid h.2, get_putBytes, if_neg fun h => nomatch h.1]

theorem redeemed_of_redeemable (hordered : s.Ordered) (h : Redeemable s now token key u) :
    Redeemed s now key u (s.redeem now key u) where
  linkId := (Rows.freshId_eq_iff (hordered .userKeys)).mp rfl
  linkRead := (get_userKeys_redeem h _).trans (if_pos rfl)
  userRead := (user_redeem h _).trans (if_pos rfl)
  others := by
    intro t id hlink huser
    rw [redeem, get?_putBytes, if_neg huser, get?_putBytes, if_neg hlink]

/-! ### Runs of operations -/

/-- The store after an operation has been tried. One that fails leaves the store as it was. -/
def Operation.tried (s : Store) (op : Operation) : Store :=
  match op.run s with
  | .ok s' => s'
  | .error _ => s

/-- The user whose invite an operation redeems. -/
def Operation.redeems? (s : Store) : Operation → Option User
  | .redeemInvite now token key =>
    match s.redeemInvite now token key with
    | .ok (_, u?) => u?
    | .error _ => none
  | _ => none

/-- The users whose invites a run of operations redeems. -/
def redeemed (s : Store) : List Operation → List User
  | [] => []
  | op :: ops => (op.redeems? s).toList ++ redeemed (op.tried s) ops

theorem ordered_tried (h : s.Ordered) (op : Operation) : (op.tried s).Ordered := by
  unfold Operation.tried
  rcases hrun : op.run s with e | s'
  · exact h
  · exact ordered_run h hrun

theorem redeems?_eq_some {op : Operation} (h : op.redeems? s = some u') :
    ∃ now token key, op = .redeemInvite now token key ∧
      s.redeemInvite now token key = .ok (op.tried s, some u') := by
  cases op with
  | redeemInvite now token key =>
    refine ⟨now, token, key, rfl, ?_⟩
    rcases hredeem : s.redeemInvite now token key with e | ⟨s₁, found⟩
    · simp only [Operation.redeems?, hredeem, reduceCtorEq] at h
    · simp only [Operation.redeems?, hredeem] at h
      simp only [Operation.tried, Operation.run, hredeem, Except.map, h]
  | _ => cases h

/-- An attempt that redeems nothing changes nothing. -/
theorem tried_redeemInvite_of_none
    (h : (Operation.redeemInvite now token key).redeems? s = none) :
    (Operation.redeemInvite now token key).tried s = s := by
  rcases hredeem : s.redeemInvite now token key with e | ⟨s₁, found⟩
  · simp only [Operation.tried, Operation.run, hredeem, Except.map]
  simp only [Operation.redeems?, hredeem] at h
  simp only [Operation.tried, Operation.run, hredeem, Except.map]
  subst h
  unfold redeemInvite at hredeem
  split_ifs at hredeem with htoken
  · cases hredeem
    rfl
  obtain ⟨found, -, hrest⟩ := exists_of_bind_eq_ok hredeem
  rcases found with _ | u
  · cases hrest
    rfl
  · obtain ⟨s₂, -, hrest⟩ := exists_of_bind_eq_ok hrest
    obtain ⟨s₃, -, heq⟩ := exists_of_bind_eq_ok hrest
    cases heq

/-- What an operation other than the putting of a user does to users: it redeems an invite, or nothing. -/
theorem users_tried (hordered : s.Ordered) (hkeyed : s.Keyed User .users) {op : Operation}
    (hop : ∀ u, op ≠ .putUser u) :
    (op.redeems? s = none ∧ (op.tried s).rows .users = s.rows .users) ∨
      ∃ now token key u, op.redeems? s = some u.spent ∧ Redeemable s now token key u ∧
        op.tried s = s.redeem now key u := by
  rcases hredeems : op.redeems? s with _ | u'
  · refine .inl ⟨rfl, ?_⟩
    by_cases hredeem : ∃ now token key, op = .redeemInvite now token key
    · obtain ⟨now, token, key, rfl⟩ := hredeem
      rw [tried_redeemInvite_of_none hredeems]
    · unfold Operation.tried
      rcases hrun : op.run s with e | s'
      · rfl
      · refine (rewritten_run hrun).rows_eq ?_
        cases op with
        | putUser u => exact absurd rfl (hop u)
        | redeemInvite now token key => exact absurd ⟨now, token, key, rfl⟩ hredeem
        | _ => simp [Operation.tables]
  · obtain ⟨now, token, key, rfl, hok⟩ := redeems?_eq_some hredeems
    obtain ⟨u, h, rfl, hstore⟩ := (redeemInvite_eq_some_iff hordered hkeyed).mp hok
    exact .inr ⟨now, token, key, u, rfl, h, hstore⟩

/-! ### Users without an invite -/

theorem keyed_redeem (hkeyed : s.Keyed User .users) (h : Redeemable s now token key u) :
    (s.redeem now key u).Keyed User .users := by
  intro row hrow a ha
  have hput : row ∈ (s.rows .users).put u.id (MessagePack.encode u.spent) := hrow
  rcases Rows.mem_put hput with rfl | hmem
  · rw [decode_encode _ h.userFits] at ha
    cases ha
    rfl
  · exact hkeyed row hmem a ha

theorem keyed_tried (hordered : s.Ordered) (hkeyed : s.Keyed User .users) {op : Operation}
    (hop : ∀ u, op ≠ .putUser u) : (op.tried s).Keyed User .users := by
  rcases users_tried hordered hkeyed hop with ⟨-, hrows⟩ | ⟨now, token, key, u, -, h, hstore⟩
  · unfold Keyed
    rw [hrows]
    exact hkeyed
  · rw [hstore]
    exact keyed_redeem hkeyed h

/-- No user with this identifier holds an invite. -/
def Spent (s : Store) (id : Id) : Prop :=
  ∀ u, s.user id = .ok (some u) → u.inviteToken = ""

theorem Redeemable.not_spent (h : Redeemable s now token key u) : ¬ s.Spent u.id := fun hspent =>
  h.invited.nonempty (h.invited.holds.symm.trans (hspent u h.held))

theorem spent_redeem (h : Redeemable s now token key u) {id : Id} (hid : id = u.id ∨ s.Spent id) :
    (s.redeem now key u).Spent id := by
  intro v hv
  rw [user_redeem h] at hv
  split_ifs at hv with hsame
  · cases hv
    rfl
  · exact hid.resolve_left hsame v hv

theorem Spent.tried {id : Id} (hspent : s.Spent id) (hordered : s.Ordered)
    (hkeyed : s.Keyed User .users) {op : Operation} (hop : ∀ u, op ≠ .putUser u) :
    (op.tried s).Spent id := by
  rcases users_tried hordered hkeyed hop with ⟨-, hrows⟩ | ⟨now, token, key, u, -, h, hstore⟩
  · unfold Spent user get
    rw [hrows]
    exact hspent
  · rw [hstore]
    exact spent_redeem h (.inr hspent)

theorem not_redeemed_of_spent {ops : List Operation} {id : Id} (hops : ∀ op ∈ ops, ∀ u, op ≠ .putUser u) :
    ∀ {s : Store}, s.Ordered → s.Keyed User .users → s.Spent id →
      id ∉ (redeemed s ops).map User.id := by
  induction ops with
  | nil => exact fun _ _ _ => List.not_mem_nil
  | cons op ops ih =>
    intro s hordered hkeyed hspent
    have hop := hops op List.mem_cons_self
    have hlater := ih (fun op hmem => hops op (List.mem_cons_of_mem _ hmem)) (ordered_tried hordered op)
      (keyed_tried hordered hkeyed hop) (hspent.tried hordered hkeyed hop)
    rw [redeemed, List.map_append, List.mem_append]
    rintro (hmem | hmem)
    · rcases users_tried hordered hkeyed hop with ⟨hnone, -⟩ | ⟨now, token, key, u, hsome, h, -⟩
      · rw [hnone] at hmem
        cases hmem
      · rw [hsome] at hmem
        obtain rfl : id = u.id := List.mem_singleton.mp hmem
        exact h.not_spent hspent
    · exact hlater hmem

theorem nodup_redeemed {ops : List Operation} (hops : ∀ op ∈ ops, ∀ u, op ≠ .putUser u) :
    ∀ {s : Store}, s.Ordered → s.Keyed User .users → ((redeemed s ops).map User.id).Nodup := by
  induction ops with
  | nil => exact fun _ _ => List.nodup_nil
  | cons op ops ih =>
    intro s hordered hkeyed
    have hop := hops op List.mem_cons_self
    have hops' : ∀ op ∈ ops, ∀ u, op ≠ .putUser u := fun op hmem => hops op (List.mem_cons_of_mem _ hmem)
    have hordered' := ordered_tried hordered op
    have hkeyed' := keyed_tried hordered hkeyed hop
    have hlater := ih hops' hordered' hkeyed'
    rw [redeemed]
    rcases users_tried hordered hkeyed hop with ⟨hnone, -⟩ | ⟨now, token, key, u, hsome, h, hstore⟩
    · rw [hnone]
      exact hlater
    · have hspent : (op.tried s).Spent u.id := by
        rw [hstore]
        exact spent_redeem h (.inl rfl)
      rw [hsome]
      exact List.nodup_cons.mpr ⟨not_redeemed_of_spent hops' hordered' hkeyed' hspent, hlater⟩

/-- An invite is redeemed exactly if there is a first user who holds it, and then only the key's link and
the user's invite change. What redeems nothing changes nothing. No run of operations redeems the invite of
one user twice, unless the user is put anew. -/
theorem invite_redeemed_once {s : Store} (hordered : s.Ordered) (hkeyed : s.Keyed User .users) :
    (∀ now token key u', (∃ s', s.redeemInvite now token key = .ok (s', some u')) ↔
      ∃ u, Redeemable s now token key u ∧ u' = u.spent) ∧
    (∀ now token key s' u', s.redeemInvite now token key = .ok (s', some u') →
      ∃ u, Redeemable s now token key u ∧ u' = u.spent ∧ Redeemed s now key u s') ∧
    (∀ now token key, (Operation.redeemInvite now token key).redeems? s = none →
      (Operation.redeemInvite now token key).tried s = s) ∧
    ∀ ops : List Operation, (∀ op ∈ ops, ∀ u, op ≠ .putUser u) →
      ((redeemed s ops).map User.id).Nodup := by
  refine ⟨fun now token key u' => ?_, fun now token key s' u' hok => ?_, fun _ _ _ hnone =>
    tried_redeemInvite_of_none hnone, fun ops hops => nodup_redeemed hops hordered hkeyed⟩
  · constructor
    · rintro ⟨s', hok⟩
      obtain ⟨u, h, heq, -⟩ := (redeemInvite_eq_some_iff hordered hkeyed).mp hok
      exact ⟨u, h, heq⟩
    · rintro ⟨u, h, heq⟩
      exact ⟨s.redeem now key u, (redeemInvite_eq_some_iff hordered hkeyed).mpr ⟨u, h, heq, rfl⟩⟩
  · obtain ⟨u, h, heq, rfl⟩ := (redeemInvite_eq_some_iff hordered hkeyed).mp hok
    exact ⟨u, h, heq, redeemed_of_redeemable hordered h⟩

/-- A store with two users who hold the same invite, and a row after them that does not decode. -/
def sharedInvite : Store :=
  ((Store.empty.putBytes .users 3 (MessagePack.encode
    ({ id := 3, name := "bob", email := "bob@example.org", inviteToken := "tok" } : User))).putBytes
    .users 5 (MessagePack.encode
      ({ id := 5, name := "eve", email := "eve@example.org", inviteToken := "tok" } : User))).putBytes
    .users 9 [0xc1]

theorem keyed_sharedInvite : sharedInvite.Keyed User .users := by
  intro row hrow a ha
  have hrows : sharedInvite.rows .users = [
      (3, MessagePack.encode
        ({ id := 3, name := "bob", email := "bob@example.org", inviteToken := "tok" } : User)),
      (5, MessagePack.encode
        ({ id := 5, name := "eve", email := "eve@example.org", inviteToken := "tok" } : User)),
      (9, [0xc1])] := rfl
  rw [hrows] at hrow
  simp only [List.mem_cons, List.not_mem_nil, or_false] at hrow
  rcases hrow with rfl | rfl | rfl
  · rw [decode_encode _ (by decide +kernel)] at ha
    cases ha
    rfl
  · rw [decode_encode _ (by decide +kernel)] at ha
    cases ha
    rfl
  · have hbad : (decode [0xc1] : Except StoreError User) = .error .undecodable := by decide +kernel
    rw [hbad] at ha
    cases ha

/-- Three keys try the same token: two users' invites are redeemed, and the third attempt fails. -/
theorem invite_redeemed_once_shared :
    let attempt (text : String) : Operation := .redeemInvite .epoch "tok" ⟨text, [], ""⟩
    let ops := [attempt "k1", attempt "k2", .createSession .epoch 3 1, attempt "k3"]
    sharedInvite.Ordered ∧ sharedInvite.Keyed User .users ∧ (∀ op ∈ ops, ∀ u, op ≠ .putUser u) ∧
      (redeemed sharedInvite ops).map User.id = [3, 5] ∧
      ((redeemed sharedInvite ops).map User.id).Nodup := by
  intro attempt ops
  have hordered : sharedInvite.Ordered := by
    intro t
    cases t <;> decide +kernel
  have hops : ∀ op ∈ ops, ∀ u, op ≠ .putUser u := by
    simp [ops, attempt]
  exact ⟨hordered, keyed_sharedInvite, hops, by decide +kernel,
    (invite_redeemed_once hordered keyed_sharedInvite).2.2.2 ops hops⟩

end Store

end Gatehouse
