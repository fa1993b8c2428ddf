import Gatehouse.Proofs.Bastion.RedeemedKey

/-!
# Attempts to authenticate do not leak into each other

`attempts_do_not_leak`: whatever has been tried on two connections before, once the same key or the same
password has been accepted on both, no channel can tell the two apart. A refused password leaves the
context as it is, and the store is changed by nothing but the redeeming of an invite.
`stale_user_is_not_seen` is a user whom a health check leaves behind, and whom no channel shows.

Proof. What is accepted replaces the context as a whole (`authenticateKey_eq`), except that a health
check leaves a user or a message behind. But then the connection is for a health check, and nothing that
a channel is answered with depends on the rest of the context (`alike_of_indistinct`).
-/

namespace Gatehouse.Bastion

open Time (Instant)

namespace Context

variable {c₁ c₂ : Context} {s : Store} {now : Instant} {username : String} {key : Credential}

/-! ### What channels can tell apart -/

/-- Whatever happens on the channels of a connection, it does the same in either context: it accepts and
declines the same channels, relays them to the same hosts for the same users, and refuses and answers the
others with the same texts. -/
def Alike (c₁ c₂ : Context) : Prop :=
  ∀ relayed locals events,
    let outcome₁ := Handler.run { context := c₁, relayed, locals } events
    let outcome₂ := Handler.run { context := c₂, relayed, locals } events
    outcome₁.2 = outcome₂.2 ∧ outcome₁.1.relayed = outcome₂.1.relayed ∧
      outcome₁.1.locals = outcome₂.1.locals

/-- The same context, or both for a health check. -/
def Indistinct (c₁ c₂ : Context) : Prop :=
  c₁ = c₂ ∨ c₁.intent = .healthcheck ∧ c₂.intent = .healthcheck

/-- A connection for a health check does not depend on the rest of its context. -/
theorem step_of_healthcheck {h : Handler} {c : Context} (hold : h.context.intent = .healthcheck)
    (hnew : c.intent = .healthcheck) (event : ConnectionEvent) :
    ({ h with context := c } : Handler).step event =
      ({ (h.step event).1 with context := c }, (h.step event).2) := by
  have hreply : localReply c = localReply h.context := by
    rw [localReply, localReply, if_pos hold, if_pos hnew]
  cases event with
  | opened channel kind =>
    simp only [Handler.step, Handler.openChannel, hold, hnew]
    split <;> rfl
  | request channel request =>
    change ({ h with context := c } : Handler).route channel request =
      ({ (h.route channel request).1 with context := c }, (h.route channel request).2)
    unfold Handler.route
    by_cases hrelayed : channel ∈ h.relayed
    · rw [if_pos hrelayed, if_pos hrelayed]
    rw [if_neg hrelayed, if_neg hrelayed]
    by_cases hlocal : channel ∉ h.locals
    · rw [if_pos hlocal, if_pos hlocal]
    rw [if_neg hlocal, if_neg hlocal]
    cases request with
    | shell | exec => simp only [Handler.replyLocally, hreply]
    | _ => rfl
  | data | eof | closed | display | agent => rfl

theorem run_of_healthcheck {c : Context} (hnew : c.intent = .healthcheck)
    (events : List ConnectionEvent) : ∀ {h : Handler}, h.context.intent = .healthcheck →
      ({ h with context := c } : Handler).run events =
        ({ (h.run events).1 with context := c }, (h.run events).2) := by
  induction events with
  | nil =>
    intro h _
    rfl
  | cons event events ih =>
    intro h hold
    have hkept : (h.step event).1.context.intent = .healthcheck := by
      rw [step_context]
      exact hold
    simp only [Handler.run, step_of_healthcheck hold hnew, ih hkept]

theorem alike_of_indistinct (h : Indistinct c₁ c₂) : Alike c₁ c₂ := by
  intro relayed locals events
  rcases h with rfl | ⟨hold, hnew⟩
  · exact ⟨rfl, rfl, rfl⟩
  · have hrun := run_of_healthcheck hnew events (h := { context := c₁, relayed, locals }) hold
    exact ⟨(congrArg Prod.snd hrun).symm, (congrArg (fun outcome => outcome.1.relayed) hrun).symm,
      (congrArg (fun outcome => outcome.1.locals) hrun).symm⟩

/-! ### What an attempt leaves of the context before it -/

theorem known_of_user (c : Context) (before : Option User) (user : User) :
    { c with user := before }.known user = c.known user := by
  unfold known
  rcases c.intent <;> rfl

/-- A key that belongs to nobody replaces the user in any case, unless the store fails. -/
theorem unknown_of_user (c : Context) (before : Option User) (s : Store) (now : Instant)
    (key : Credential) :
    ({ c with user := before }.unknown s now key).2 = (c.unknown s now key).2 ∧
      ((c.unknown s now key).2.2 = .ok () →
        { c with user := before }.unknown s now key = c.unknown s now key) := by
  by_cases hinvite : ∃ token, c.intent = .invite token
  · obtain ⟨token, htoken⟩ := hinvite
    rw [unknown_of_invite htoken, unknown_of_invite (c := { c with user := before }) htoken]
    rcases s.redeemInvite now token key.newUserKey with e | ⟨s', _ | user⟩
    · exact ⟨rfl, nofun⟩
    · exact ⟨rfl, fun _ => rfl⟩
    · exact ⟨rfl, fun _ => rfl⟩
  · have hnot (token : String) : c.intent ≠ .invite token := fun h => hinvite ⟨token, h⟩
    rw [unknown_of_not_invite hnot, unknown_of_not_invite (c := { c with user := before }) hnot]
    exact ⟨rfl, fun _ => rfl⟩

/-- What a key comes to does not depend on the context, and an accepted key replaces it, or leaves a
context for a health check. -/
theorem authenticateKey_eq (c₁ c₂ : Context) (s : Store) (now : Instant) (username : String)
    (key : Credential) :
    let tried₁ := c₁.authenticateKey s now username key
    let tried₂ := c₂.authenticateKey s now username key
    tried₁.2 = tried₂.2 ∧ (tried₁.2.2 = .ok () → Indistinct tried₁.1 tried₂.1) := by
  intro tried₁ tried₂
  by_cases hname : username = healthcheckName
  · subst hname
    have htried₁ : tried₁ = _ := authenticateKey_healthcheck c₁ now s key
    have htried₂ : tried₂ = _ := authenticateKey_healthcheck c₂ now s key
    rw [htried₁, htried₂]
    exact ⟨rfl, fun _ => .inr ⟨rfl, rfl⟩⟩
  rcases howner : owner s key.authorizedKey with e | _ | user
  · have htried₁ : tried₁ = _ := authenticateKey_of_error c₁ now hname howner
    have htried₂ : tried₂ = _ := authenticateKey_of_error c₂ now hname howner
    rw [htried₁, htried₂]
    exact ⟨rfl, nofun⟩
  · have htried₁ : tried₁ = _ := authenticateKey_of_none c₁ now hname howner
    have htried₂ : tried₂ = _ := authenticateKey_of_none c₂ now hname howner
    rw [htried₁, htried₂]
    obtain ⟨hresult, hcontext⟩ := unknown_of_user
      { c₁.fresh username with intent := Intent.classify username none } c₂.user s now key
    exact ⟨hresult.symm, fun hok => .inl (congrArg Prod.fst (hcontext hok)).symm⟩
  · have htried₁ : tried₁ = _ := authenticateKey_of_owner c₁ now hname howner
    have htried₂ : tried₂ = _ := authenticateKey_of_owner c₂ now hname howner
    rw [htried₁, htried₂]
    refine ⟨rfl, fun _ => .inl ?_⟩
    exact (known_of_user { c₁.fresh username with intent := Intent.classify username (some user) }
      c₂.user user).symm

theorem authenticatePassword_eq (c₁ c₂ : Context) (username : String) :
    let tried₁ := c₁.authenticatePassword username
    let tried₂ := c₂.authenticatePassword username
    tried₁.2 = tried₂.2 ∧ (tried₁.2 = true → Indistinct tried₁.1 tried₂.1) ∧
      (tried₁.2 = false → tried₁.1 = c₁) := by
  intro tried₁ tried₂
  unfold tried₁ tried₂ authenticatePassword
  by_cases hname : username = healthcheckName
  · rw [if_pos hname, if_pos hname]
    exact ⟨rfl, fun _ => .inr ⟨rfl, rfl⟩, nofun⟩
  · rw [if_neg hname, if_neg hname]
    exact ⟨rfl, nofun, fun _ => rfl⟩

/-! ### The store -/

theorem redeemInvite_of_none {s' : Store} {token : String} {link : Store.NewUserKey}
    (h : s.redeemInvite now token link = .ok (s', none)) : s' = s := by
  have hnone : (Store.Operation.redeemInvite now token link).redeems? s = none := by
    simp only [Store.Operation.redeems?, h]
  have htried : (Store.Operation.redeemInvite now token link).tried s = s' := by
    simp only [Store.Operation.tried, Store.Operation.run, h, Except.map]
  exact htried.symm.trans (Store.tried_redeemInvite_of_none hnone)

/-- The store is left as it is, unless a key that belongs to nobody redeems an invite. -/
theorem authenticateKey_store (c : Context) (s : Store) (now : Instant) (username : String)
    (key : Credential) :
    let tried := c.authenticateKey s now username key
    tried.2.1 = s ∨ ∃ token user, owner s key.authorizedKey = .ok none ∧
      Intent.classify username none = .invite token ∧
      s.redeemInvite now token key.newUserKey = .ok (tried.2.1, some user) ∧ tried.2.2 = .ok () := by
  intro tried
  by_cases hname : username = healthcheckName
  · subst hname
    have htried : tried = _ := authenticateKey_healthcheck c now s key
    rw [htried]
    exact .inl rfl
  rcases howner : owner s key.authorizedKey with e | _ | user
  · have htried : tried = _ := authenticateKey_of_error c now hname howner
    rw [htried]
    exact .inl rfl
  · have htried : tried = _ := authenticateKey_of_none c now hname howner
    by_cases hinvite : ∃ token, Intent.classify username none = .invite token
    · obtain ⟨token, htoken⟩ := hinvite
      have hintent : { c.fresh username with intent := Intent.classify username none }.intent =
          .invite token := htoken
      rw [htried, unknown_of_invite hintent]
      rcases hredeem : s.redeemInvite now token key.newUserKey with e | ⟨s', _ | user⟩
      · exact .inl rfl
      · exact .inl (redeemInvite_of_none hredeem)
      · exact .inr ⟨token, user, rfl, htoken, hredeem, rfl⟩
    · rw [htried, unknown_of_not_invite fun token h => hinvite ⟨token, h⟩]
      exact .inl rfl
  · have htried : tried = _ := authenticateKey_of_owner c now hname howner
    rw [htried]
    exact .inl rfl

/-! ### Two connections -/

/-- Whatever has been tried on two connections before: the same key comes to the same on both, and once
it is accepted no channel tells them apart; it changes the store only if it belongs to nobody and
redeems an invite. The same password comes to the same on both as well, and no channel tells them apart
once it is accepted; a refused password changes nothing. Passwords have no access to the store. -/
theorem attempts_do_not_leak (c₁ c₂ : Context) (s : Store) (now : Instant) (username : String)
    (key : Credential) :
    let tried₁ := c₁.authenticateKey s now username key
    let tried₂ := c₂.authenticateKey s now username key
    let password₁ := c₁.authenticatePassword username
    let password₂ := c₂.authenticatePassword username
    (tried₁.2 = tried₂.2 ∧ (tried₁.2.2 = .ok () → Alike tried₁.1 tried₂.1)) ∧
      (tried₁.2.1 = s ∨ ∃ token user, owner s key.authorizedKey = .ok none ∧
        Intent.classify username none = .invite token ∧
        s.redeemInvite now token key.newUserKey = .ok (tried₁.2.1, some user) ∧
        tried₁.2.2 = .ok ()) ∧
      password₁.2 = password₂.2 ∧ (password₁.2 = true → Alike password₁.1 password₂.1) ∧
      (password₁.2 = false → password₁.1 = c₁) := by
  intro tried₁ tried₂ password₁ password₂
  obtain ⟨hsame, haccepted⟩ := authenticateKey_eq c₁ c₂ s now username key
  obtain ⟨hpassword, hlet, hrefused⟩ := authenticatePassword_eq c₁ c₂ username
  exact ⟨⟨hsame, fun hok => alike_of_indistinct (haccepted hok)⟩,
    authenticateKey_store c₁ s now username key,
    hpassword, fun hok => alike_of_indistinct (hlet hok), hrefused⟩

/-- The user of an attempt before is still there after a health check, and nobody sees it. -/
theorem stale_user_is_not_seen :
    let before : Context := { user := some invitee, intent := .host "db" }
    let tried₁ := before.authenticateKey Store.empty .epoch healthcheckName strayKey
    let tried₂ := ({} : Context).authenticateKey Store.empty .epoch healthcheckName strayKey
    tried₁.1 ≠ tried₂.1 ∧ tried₁.2.2 = .ok () ∧ Alike tried₁.1 tried₂.1 := by
  intro before tried₁ tried₂
  have hok : tried₁.2.2 = .ok () := rfl
  refine ⟨by decide +kernel, hok, ?_⟩
  exact (attempts_do_not_leak before {} .empty .epoch healthcheckName strayKey).1.2 hok

end Context

end Gatehouse.Bastion
