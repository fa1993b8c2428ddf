import Gatehouse.Proofs.Bastion.Admission
import Gatehouse.Proofs.Store.Invite

/-!
# Whether a redeemed key logs in

`redeemed_key_logs_in`: after a welcome, the key logs in as the user who was welcomed exactly if no older
row for the same key comes before the new one. `redeemed_key_locked_out` is a key that was welcomed and is
unknown ever after, as an older row links it to a user who does not exist.

Proof. A look-up finds the first row for the key. The redemption adds a row and changes no other, so that
row is found (`Store.userKey_redeem`), or else the one that was found before (`Store.userKey_shadowed`).
In the second case the older row led to no user, or there would have been no redemption; and there is
still no user, as the redemption gives an invite's user a new row but makes no user.
-/

namespace Gatehouse

open Time (Instant)

namespace Store

variable {s s' : Store} {now : Instant} {token text : String} {key : NewUserKey} {u : User}

/-! ### Rows for one key -/

/-- The rows' key is this one. White space around keys does not count. -/
def ForKey (text : String) (k : UserKey) : Prop :=
  Text.trim k.authorizedKey = Text.trim text

/-- A row for the key comes before the one that is added next. -/
def Shadowed (s : Store) (text : String) : Prop :=
  ∃ k, s.get UserKey .userKeys k.id = .ok (some k) ∧ ForKey text k ∧ k.id < (s.rows .userKeys).freshId

theorem userKey_eq_some_iff (hordered : s.Ordered) (hkept : s.WellKept) {k : UserKey} :
    s.userKey text = .ok (some k) ↔ s.get UserKey .userKeys k.id = .ok (some k) ∧ ForKey text k ∧
      ∀ k', s.get UserKey .userKeys k'.id = .ok (some k') → k'.id < k.id → ¬ ForKey text k' := by
  unfold userKey ForKey
  dsimp only
  rw [find_eq_some_iff hordered (hkept.keyed rfl), beq_iff_eq]
  refine and_congr_right fun _ => and_congr_right fun _ => ⟨fun h k' hk' hlt => ?_, fun h id hlt => ?_⟩
  · obtain ⟨found, hfound, hno⟩ := h k'.id hlt
    have hsome : found = some k' := Except.ok.inj (hfound.symm.trans hk')
    exact beq_eq_false_iff_ne.mp (hno k' hsome)
  · rcases hkept.get_cases (α := UserKey) (t := .userKeys) rfl id with hnone | ⟨k', hk', rfl⟩
    · exact ⟨none, hnone, fun b hb => absurd hb (Option.not_mem_none b)⟩
    · refine ⟨some k', hk', fun b hb => ?_⟩
      cases hb
      exact beq_eq_false_iff_ne.mpr (h k' hk' hlt)

/-- The new row is found, if no older row for the key comes before it. -/
theorem userKey_redeem (hordered : (s.redeem now key u).Ordered) (hkept : (s.redeem now key u).WellKept)
    (h : Redeemable s now token key u) (hnot : ¬ s.Shadowed key.authorizedKey) :
    (s.redeem now key u).userKey key.authorizedKey = .ok (some (s.link now key u)) := by
  refine (userKey_eq_some_iff hordered hkept).mpr ⟨?_, rfl, fun k hk hlt hsame => ?_⟩
  · rw [get_userKeys_redeem h, if_pos rfl]
  · rw [get_userKeys_redeem h] at hk
    split_ifs at hk with hid
    · exact UInt64.lt_irrefl _ (hid ▸ hlt)
    · exact hnot ⟨k, hk, hsame, hlt⟩

/-- Else the row is found that was found before. -/
theorem userKey_shadowed (hordered : s.Ordered) (hkept : s.WellKept)
    (hordered' : (s.redeem now key u).Ordered) (hkept' : (s.redeem now key u).WellKept)
    (h : Redeemable s now token key u) (hshadowed : s.Shadowed text) {found : Option UserKey}
    (hfound : s.userKey text = .ok found) :
    ∃ k, found = some k ∧ (s.redeem now key u).userKey text = .ok (some k) := by
  obtain ⟨older, holder, hsame, hlt⟩ := hshadowed
  rcases found with _ | k
  · obtain ⟨row, hmem, -, hrow⟩ := hordered.get_eq_some_iff.mp holder
    exact absurd hsame (beq_eq_false_iff_ne.mp (findIn_eq_none hfound row hmem older hrow))
  · obtain ⟨hk, hfor, hleast⟩ := (userKey_eq_some_iff hordered hkept).mp hfound
    have hfirst : k.id < (s.link now key u).id := by
      refine UInt64.lt_of_le_of_lt (UInt64.not_lt.mp fun hbefore => ?_) hlt
      exact hleast older holder hbefore hsame
    have hunmoved (id : Id) (hid : id ≤ k.id) : (s.redeem now key u).get UserKey .userKeys id =
        s.get UserKey .userKeys id := by
      have hne : id ≠ (s.link now key u).id := fun heq =>
        UInt64.lt_irrefl _ (UInt64.lt_of_le_of_lt (heq ▸ hid) hfirst)
      rw [get_userKeys_redeem h, if_neg hne]
    refine ⟨k, rfl, (userKey_eq_some_iff hordered' hkept').mpr ⟨?_, hfor, fun k' hk' hbefore => ?_⟩⟩
    · rw [hunmoved _ (UInt64.le_refl _)]
      exact hk
    · rw [hunmoved _ (UInt64.le_of_lt hbefore)] at hk'
      exact hleast k' hk' hbefore

end Store

namespace Bastion

open Store (Redeemable NewUserKey)

/-- What of a credential is linked to a user. -/
def Credential.newUserKey (key : Credential) : NewUserKey where
  authorizedKey := key.authorizedKey
  keyBlob := key.keyBlob
  comment := "created by sshbastion"

namespace Context

variable {s : Store} {now : Instant} {username : String} {key : Credential} {u u' : User} {c : Context}

/-! ### Keys that belong to nobody -/

theorem unknown_of_invite {token : String} (h : c.intent = .invite token) :
    c.unknown s now key =
      match s.redeemInvite now token key.newUserKey with
      | .error e => (c, s, .error e)
      | .ok (s', some user) =>
        ({ c with user := some user, message := some (welcome user) }, s', .ok ())
      | .ok (s', none) =>
        ({ c with user := none, deferredError := some "your token is invalid or expired" }, s', .ok ()) := by
  rw [unknown, h]
  rfl

theorem unknown_of_not_invite (h : ∀ token, c.intent ≠ .invite token) :
    c.unknown s now key =
      ({ c with user := none, deferredError := some "unknown ssh key" }, s, .ok ()) := by
  unfold unknown
  split
  · next token hinvite => exact absurd hinvite (h token)
  · rfl

theorem known_message (user : User) : (c.known user).message = c.message := by
  unfold known
  split <;> rfl

/-- Who is welcomed has redeemed an invite. -/
theorem redeemed_of_welcome (hordered : s.Ordered) (hkeyed : s.Keyed User .users)
    (hmessage : (c.authenticateKey s now username key).1.message = some (welcome u'))
    (huser : (c.authenticateKey s now username key).1.user = some u') :
    owner s key.authorizedKey = .ok none ∧ ∃ token u,
      Redeemable s now token key.newUserKey u ∧ u' = u.spent ∧
        (c.authenticateKey s now username key).2.1 = s.redeem now key.newUserKey u := by
  by_cases hname : username = healthcheckName
  · rw [hname, authenticateKey_healthcheck] at hmessage
    cases hmessage
  rcases howner : owner s key.authorizedKey with e | _ | user
  · rw [authenticateKey_of_error c now hname howner] at hmessage
    cases hmessage
  · rw [authenticateKey_of_none c now hname howner] at hmessage huser ⊢
    refine ⟨rfl, ?_⟩
    by_cases hinvite : ∃ token, Intent.classify username none = .invite token
    · obtain ⟨token, htoken⟩ := hinvite
      have hintent : { c.fresh username with intent := Intent.classify username none }.intent =
          .invite token := htoken
      rw [unknown_of_invite hintent] at hmessage huser ⊢
      rcases hredeem : s.redeemInvite now token key.newUserKey with e | ⟨s', _ | user⟩
      · rw [hredeem] at hmessage
        cases hmessage
      · rw [hredeem] at hmessage
        cases hmessage
      · rw [hredeem] at huser
        cases huser
        obtain ⟨u, h, heq, hstore⟩ := (Store.redeemInvite_eq_some_iff hordered hkeyed).mp hredeem
        exact ⟨token, u, h, heq, hstore⟩
    · rw [unknown_of_not_invite fun token h => hinvite ⟨token, h⟩] at huser
      cases huser
  · rw [authenticateKey_of_owner c now hname howner, known_message] at hmessage
    cases hmessage

/-! ### Later connections -/

/-- Whoever presents the key, except for a health check, is taken for this user. -/
def LogsIn (s : Store) (key : Credential) (user : User) : Prop :=
  ∀ (c : Context) (now : Instant) (username : String), username ≠ healthcheckName →
    ∃ c', c.authenticateKey s now username key = (c', s, .ok ()) ∧ c'.user = some user ∧
      c'.deferredError ≠ some "unknown ssh key"

/-- Whoever presents the key, except for a health check or with an invite, is nobody. -/
def LockedOut (s : Store) (key : Credential) : Prop :=
  ∀ (c : Context) (now : Instant) (username : String), username ≠ healthcheckName →
    (∀ token, Intent.classify username none ≠ .invite token) →
    ∃ c', c.authenticateKey s now username key = (c', s, .ok ()) ∧ c'.user = none ∧
      c'.deferredError = some "unknown ssh key"

theorem known_deferredError_ne (user : User) (h : c.deferredError = none) :
    (c.known user).deferredError ≠ some "unknown ssh key" := by
  unfold known
  split
  · intro hsame
    have hfirst : ("invites are only supported for new SSH keys; " ++
        "your ssh key is already associated with the user ").toList.head? = some 'i' := by
      decide +kernel
    have hheads := congrArg (fun text => text.toList.head?) (Option.some.inj hsame)
    rw [String.toList_append, List.head?_append, hfirst, Option.some_or] at hheads
    revert hheads
    decide +kernel
  · rw [h]
    exact nofun

theorem logsIn_of_owner {user : User} (h : owner s key.authorizedKey = .ok (some user)) :
    LogsIn s key user := by
  intro c now username hname
  exact ⟨_, authenticateKey_of_owner c now hname h, known_user _ user, known_deferredError_ne user rfl⟩

theorem lockedOut_of_owner (h : owner s key.authorizedKey = .ok none) : LockedOut s key := by
  intro c now username hname hinvite
  rw [authenticateKey_of_none c now hname h, unknown_of_not_invite hinvite]
  exact ⟨_, rfl, rfl, rfl⟩

theorem LockedOut.not_logsIn (h : LockedOut s key) (user : User) : ¬ LogsIn s key user := by
  intro hlogs
  have hname : "admin" ≠ healthcheckName := by decide
  have hinvite (token : String) : Intent.classify "admin" none ≠ .invite token := by
    rw [Intent.classify, if_neg hname, if_pos (.inl rfl)]
    exact Intent.noConfusion
  obtain ⟨c₁, hc₁, huser₁, -⟩ := h {} .epoch "admin" hname hinvite
  obtain ⟨c₂, hc₂, huser₂, -⟩ := hlogs {} .epoch "admin" hname
  rw [hc₁] at hc₂
  cases hc₂
  rw [huser₁] at huser₂
  cases huser₂

/-- After a welcome the key logs in as the user who was welcomed, unless an older row for the key comes
before the new one. Then the key is locked out. -/
theorem redeemed_key_logs_in (hreach : s.Reachable)
    (hmessage : (c.authenticateKey s now username key).1.message = some (welcome u))
    (huser : (c.authenticateKey s now username key).1.user = some u) :
    let s' := (c.authenticateKey s now username key).2.1
    (LogsIn s' key u ↔ ¬ s.Shadowed key.authorizedKey) ∧
      (s.Shadowed key.authorizedKey → LockedOut s' key) := by
  intro s'
  have hordered := Store.ordered_of_reachable hreach
  have hkept := Store.wellKept_of_reachable hreach
  obtain ⟨howner, token, v, h, rfl, hstore⟩ := redeemed_of_welcome hordered (hkept.keyed rfl) hmessage huser
  have hredeem := (Store.redeemInvite_eq_some_iff hordered (hkept.keyed rfl)).mpr ⟨v, h, rfl, rfl⟩
  have hordered' := (Store.rewritten_redeemInvite hredeem).ordered hordered
  have hkept' := Store.wellKept_redeemInvite hkept hredeem
  have hs' : s' = s.redeem now key.newUserKey v := hstore
  rw [hs']
  have hlocked (hshadowed : s.Shadowed key.authorizedKey) :
      LockedOut (s.redeem now key.newUserKey v) key := by
    refine lockedOut_of_owner ?_
    unfold owner at howner
    obtain ⟨found, hfound, hrest⟩ := exists_of_bind_eq_ok howner
    obtain ⟨k, rfl, hk⟩ := Store.userKey_shadowed hordered hkept hordered' hkept' h hshadowed hfound
    -- The older row's user does not exist, so it is not the one whose invite was redeemed.
    have hmissing : s.user k.userId = .ok none := hrest
    have hother : k.userId ≠ v.id := by
      intro heq
      rw [heq, h.held] at hmissing
      cases hmissing
    unfold owner
    rw [hk]
    show (s.redeem now key.newUserKey v).user k.userId = _
    rw [Store.user_redeem h, if_neg hother]
    exact hmissing
  refine ⟨⟨fun hlogs hshadowed => (hlocked hshadowed).not_logsIn _ hlogs, fun hnot => ?_⟩, hlocked⟩
  have hfound : (s.redeem now key.newUserKey v).userKey key.authorizedKey =
      .ok (some (s.link now key.newUserKey v)) := Store.userKey_redeem hordered' hkept' h hnot
  refine logsIn_of_owner ?_
  unfold owner
  rw [hfound]
  show (s.redeem now key.newUserKey v).user v.id = _
  rw [Store.user_redeem h, if_pos rfl]

/-! ### A key that is locked out -/

/-- A user who has been invited. -/
def invitee : User := { id := 1, name := "bob", email := "bob@x", inviteToken := "tok" }

/-- A key and its link to a user who does not exist. -/
def strayKey : Credential := { authorizedKey := "k2", keyBlob := [1] }

def strayLink : UserKey :=
  { id := 1, userId := 99, authorizedKey := "k2", keyBlob := [1], createdAt := .epoch }

theorem reachable_putUser {u : User} (h : s.Reachable) (hid : u.id ≠ 0)
    (hfits : (MessagePack.encode u).length ≤ Store.valueLimit) :
    (s.putBytes .users u.id (MessagePack.encode u)).Reachable := by
  refine .step (.putUser u) h ?_
  rw [Store.Operation.run, Store.put_eq_ok hid hfits]
  rfl

theorem reachable_putUserKey {k : UserKey} (h : s.Reachable) (hid : k.id ≠ 0)
    (hfits : (MessagePack.encode k).length ≤ Store.valueLimit) :
    (s.putBytes .userKeys k.id (MessagePack.encode k)).Reachable := by
  refine .step (.putUserKey k) h ?_
  rw [Store.Operation.run, Store.put_eq_ok hid hfits]
  rfl

/-- A store with an invited user and without keys. -/
def inviting : Store :=
  Store.empty.putBytes .users invitee.id (MessagePack.encode invitee)

theorem reachable_inviting : inviting.Reachable :=
  reachable_putUser .empty (by decide) (by decide +kernel)

/-- The first key of the invited user logs in. -/
theorem redeemed_key_logs_in_first_key :
    let outcome := ({} : Context).authenticateKey inviting .epoch "invite:tok" strayKey
    inviting.Reachable ∧ outcome.1.message = some (welcome invitee.spent) ∧
      outcome.1.user = some invitee.spent ∧ LogsIn outcome.2.1 strayKey invitee.spent := by
  intro outcome
  have hmessage : outcome.1.message = some (welcome invitee.spent) := by decide +kernel
  have huser : outcome.1.user = some invitee.spent := by decide +kernel
  have hnot : ¬ inviting.Shadowed strayKey.authorizedKey := by
    rintro ⟨k, hk, -, -⟩
    cases hk
  exact ⟨reachable_inviting, hmessage, huser,
    (redeemed_key_logs_in reachable_inviting hmessage huser).1.mpr hnot⟩

/-- A key that is linked to a user who does not exist redeems an invite, is welcomed, and is unknown to
the store that comes of it. -/
theorem redeemed_key_locked_out :
    let s := inviting.putBytes .userKeys strayLink.id (MessagePack.encode strayLink)
    let outcome := ({} : Context).authenticateKey s .epoch "invite:tok" strayKey
    let later := ({} : Context).authenticateKey outcome.2.1 .epoch "web" strayKey
    s.Reachable ∧ outcome.1.message = some (welcome invitee.spent) ∧
      outcome.1.user = some invitee.spent ∧ outcome.2.2 = .ok () ∧
      "web" ≠ healthcheckName ∧ later.2.2 = .ok () ∧ later.1.user = none ∧
      later.1.deferredError = some "unknown ssh key" := by
  intro s outcome later
  refine ⟨reachable_putUserKey reachable_inviting (by decide) (by decide +kernel), ?_, ?_, ?_, ?_, ?_, ?_, ?_⟩
  all_goals decide +kernel

end Context

end Bastion

end Gatehouse
