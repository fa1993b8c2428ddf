import Gatehouse.Bastion.Identity
import Gatehouse.Proofs.Access.Shown
import Gatehouse.Proofs.Dial.Chain
import Gatehouse.Proofs.Secret.Opening

/-!
# Dialing from a sealed store

`resolve_sealed`: sealing the secrets of a store changes nothing about dialing. If the passwords of hosts
and the private keys of a store are sealed, each under a nonce of its own, then resolving a target fails
with the same error as before, or gives a plan whose hops have the same address, the same login and the
same credentials in the same order, and the server's key is the same.

Proof. What a box has sealed it opens again, and what is empty stays empty (`Seals.opens`,
`Seals.eq_empty_iff`), so that at each host the two stores give the same credentials (`ofHost_sealed`).
The access rules are not touched, and neither they nor the hook see a password (`check_sealed`). The two
walks then go through the same hosts, by induction on the room that is left (`walk_sealed`).
-/

namespace Gatehouse

/-! ### Sealed texts -/

/-- The stored form of a secret: an empty one is left empty, any other is sealed. -/
inductive SecretBox.Seals (box : SecretBox) : (plain stored : String) → Prop where
  | empty : box.Seals "" ""
  | sealed {plain : String} {nonce : Bytes} (hplain : plain ≠ "")
    (hnonce : nonce.length = Crypto.Aead.nonceLength) : box.Seals plain (box.encrypt nonce plain)

namespace SecretBox

variable {box : SecretBox} {plain stored : String}

theorem Seals.opens (h : box.Seals plain stored) : box.decryptOrRaw stored = plain := by
  cases h with
  | empty => exact decryptOrRaw_empty box
  | sealed _ hnonce => exact decryptOrRaw_encrypt box hnonce plain

theorem Seals.eq_empty_iff (h : box.Seals plain stored) : stored = "" ↔ plain = "" := by
  cases h with
  | empty => exact Iff.rfl
  | sealed hplain hnonce => exact iff_of_false (encrypt_ne_empty hnonce hplain) hplain

end SecretBox

/-! ### Sealed stores -/

/-- A host is stored as it is, but with its password sealed. -/
inductive SealsHost (box : SecretBox) (host : Host) : Host → Prop where
  | sealed {password : String} (h : box.Seals host.password password) :
    SealsHost box host { host with password }

/-- Whatever does not look at the password is the same for a host and its sealed form. -/
theorem SealsHost.same {box : SecretBox} {host stored : Host} (h : SealsHost box host stored) {β : Type}
    (f : Host → β) (hf : ∀ password, f { host with password } = f host) : f stored = f host := by
  obtain ⟨-⟩ := h
  exact hf _

/-- A key is stored as it is, but with its private key sealed. -/
inductive SealsKey (box : SecretBox) (key : SshKey) : SshKey → Prop where
  | sealed {privateKey : String} (h : box.Seals key.privateKey privateKey) :
    SealsKey box key { key with privateKey }

/-- The second store is the first with its passwords and its private keys sealed. -/
structure SealsStore (box : SecretBox) (s stored : Store) : Prop where
  hosts : List.Forall₂ (Store.RowsMatch (SealsHost box)) (s.rows .hosts) (stored.rows .hosts)
  sshKeys : List.Forall₂ (Store.RowsMatch (SealsKey box)) (s.rows .sshKeys) (stored.rows .sshKeys)
  others : ∀ t, t ≠ .hosts → t ≠ .sshKeys → stored.rows t = s.rows t

/-- Sealing touches nothing that a hook is shown or that a decision depends on. -/
theorem SealsStore.shownAlike {box : SecretBox} {s stored : Store} (h : SealsStore box s stored) :
    s.ShownAlike stored := by
  have hsame {α : Type} [Record α] {β : Type} {shown : α → β} (t : Table) (hhosts : t ≠ .hosts)
      (hkeys : t ≠ .sshKeys) :
      List.Forall₂ (Store.RowsMatch (SeenAlike shown)) (s.rows t) (stored.rows t) := by
    rw [h.others t hhosts hkeys]
    have hself : ∀ a, SeenAlike shown a a := fun _ => rfl
    exact List.forall₂_same.mpr fun row _ => Store.rowsMatch_self hself row
  refine ⟨h.hosts.imp fun _ _ => Store.RowsMatch.imp fun host _ hhost => ?_, hsame _ (by decide) (by decide),
    hsame _ (by decide) (by decide), hsame _ (by decide) (by decide)⟩
  exact hhost.same Access.HookHost.of fun _ => rfl

namespace Dial

/-- Two specifications dial the same host in the same way. Only the stored password may differ. -/
structure SameHop (box : SecretBox) (spec sealed : Spec) : Prop where
  host : SealsHost box spec.host sealed.host
  address : sealed.address = spec.address
  username : sealed.username = spec.username
  credentials : sealed.credentials = spec.credentials

variable {box : SecretBox} {s stored : Store} {host host' : Host}

/-! ### One host -/

theorem check_sealed (h : SealsStore box s stored) (hhost : SealsHost box host host')
    (hook : Option Access.Hook) (user : User) :
    Access.check stored hook user host' = Access.check s hook user host :=
  Access.check_alike h.shownAlike hook rfl (hhost.same Access.HookHost.of fun _ => rfl)

theorem keyCredential_sealed (h : SealsStore box s stored) (hhost : SealsHost box host host') :
    keyCredential stored box host' = keyCredential s .disabled host := by
  obtain ⟨-⟩ := hhost
  unfold keyCredential
  dsimp only
  rcases host.sshKeyId with _ | id
  · rfl
  have hkey : Matched _ (s.sshKey id) (stored.sshKey id) := Store.get_matched h.sshKeys id
  dsimp only
  rcases hkey.lookup_cases with ⟨e, hx, hy⟩ | ⟨hx, hy⟩ | ⟨key, key', hx, hy, hseals⟩
  · rw [hx, hy]
  · rw [hx, hy]
  · rw [hx, hy]
    obtain ⟨hprivate⟩ := hseals
    dsimp only
    rw [hprivate.opens, SecretBox.decryptOrRaw_disabled]

theorem passwordCredential_sealed (hhost : SealsHost box host host') :
    passwordCredential box host' = passwordCredential .disabled host := by
  obtain ⟨hpassword⟩ := hhost
  unfold passwordCredential
  dsimp only
  rw [hpassword.opens, SecretBox.decryptOrRaw_disabled]
  exact if_congr hpassword.eq_empty_iff rfl rfl

theorem ofHost_sealed (h : SealsStore box s stored) (hhost : SealsHost box host host') :
    Matched (SameHop box) (Spec.ofHost s .disabled host) (Spec.ofHost stored box host') := by
  unfold Spec.ofHost
  rw [keyCredential_sealed h hhost, passwordCredential_sealed hhost]
  obtain ⟨hpassword⟩ := hhost
  dsimp only
  rcases Address.parse? host.addr with _ | address
  · exact .error _
  dsimp only
  rcases keyCredential s .disabled host with e | keys
  · exact .error e
  change Matched _ (if _ then _ else _) (if _ then _ else _)
  split_ifs
  · exact .error _
  · exact .ok ⟨.sealed hpassword, rfl, rfl, rfl⟩

/-! ### Chains -/

namespace Resolver

/-- A resolver before sealing, and the one that reads the sealed store. -/
structure Seals (r sealed : Resolver) : Prop where
  store : SealsStore sealed.box r.store sealed.store
  box : r.box = .disabled
  hook : sealed.hook = r.hook
  maxHops : sealed.maxHops = r.maxHops

/-- Two outcomes match, and the hook has been called alike. -/
def SameOutcome {α : Type} (R : α → α → Prop) (x y : Except BastionError α × List Access.HookCall) : Prop :=
  Matched R x.1 y.1 ∧ y.2 = x.2

theorem SameOutcome.cases {α : Type} {R : α → α → Prop} {x y : Except BastionError α × List Access.HookCall}
    (h : SameOutcome R x y) :
    (∃ e calls, x = (.error e, calls) ∧ y = (.error e, calls)) ∨
      ∃ a b calls, x = (.ok a, calls) ∧ y = (.ok b, calls) ∧ R a b := by
  obtain ⟨result, calls⟩ := x
  obtain ⟨result', calls'⟩ := y
  obtain ⟨hresult, hcalls⟩ := h
  dsimp only at hresult hcalls
  subst hcalls
  rcases hresult.cases with ⟨e, rfl, rfl⟩ | ⟨a, b, rfl, rfl, h⟩
  · exact .inl ⟨e, calls', rfl, rfl⟩
  · exact .inr ⟨a, b, calls', rfl, rfl, h⟩

variable {r sealed : Resolver}

theorem admitHop_sealed (h : r.Seals sealed) (hhost : SealsHost sealed.box host host') (user : User)
    (calls : List Access.HookCall) :
    SameOutcome (SameHop sealed.box) ((r.admitHop user host).run calls)
      ((sealed.admitHop user host').run calls) := by
  rw [admitHop_run, admitHop_run, h.hook, check_sealed h.store hhost, h.box]
  rcases (Access.check r.store r.hook user host).run calls with ⟨e | action, calls'⟩
  · exact ⟨.error _, rfl⟩
  · cases action with
    | deny => exact ⟨.error _, rfl⟩
    | allow => exact ⟨ofHost_sealed h.store hhost, rfl⟩

theorem walk_sealed (h : r.Seals sealed) (user : User) (target : String) (room : Nat) :
    ∀ (visited : List Id) {plan plan' : List Spec} {host host' : Host} (calls : List Access.HookCall),
      List.Forall₂ (SameHop sealed.box) plan plan' → SealsHost sealed.box host host' →
      SameOutcome (List.Forall₂ (SameHop sealed.box)) ((r.walk user target room visited plan host).run calls)
        ((sealed.walk user target room visited plan' host').run calls) := by
  induction room with
  | zero =>
    intro visited plan plan' host host' calls _ _
    simp only [walk, h.maxHops]
    exact ⟨.error _, rfl⟩
  | succ room ih =>
    intro visited plan plan' host host' calls hplan hhost
    have hid : host'.id = host.id := hhost.same Host.id fun _ => rfl
    have hhop : host'.hopId = host.hopId := hhost.same Host.hopId fun _ => rfl
    rw [walk_succ_run, walk_succ_run, hid, hhop, h.maxHops]
    split_ifs
    · exact ⟨.error _, rfl⟩
    rcases (admitHop_sealed h hhost user calls).cases with
      ⟨e, calls', hx, hy⟩ | ⟨spec, spec', calls', hx, hy, hspec⟩
    · rw [hx, hy]
      exact ⟨.error _, rfl⟩
    rw [hx, hy]
    dsimp only
    rcases host.hopId with _ | id
    · exact ⟨.ok (.cons hspec hplan), rfl⟩
    have hnext : Matched _ (r.store.host id) (sealed.store.host id) := Store.get_matched h.store.hosts id
    dsimp only
    rcases hnext.lookup_cases with ⟨e, hx, hy⟩ | ⟨hx, hy⟩ | ⟨hop, hop', hx, hy, hnext⟩
    · rw [hx, hy]
      exact ⟨.error _, rfl⟩
    · rw [hx, hy]
      exact ⟨.error _, rfl⟩
    · rw [hx, hy]
      exact ih _ _ (.cons hspec hplan) hnext

end Resolver

theorem loadServerKey_sealed (h : SealsStore box s stored) :
    Bastion.loadServerKey stored box = Bastion.loadServerKey s .disabled := by
  have hkey : Matched _ (s.sshKeyNamed Bastion.serverKeyName) (stored.sshKeyNamed Bastion.serverKeyName) :=
    Store.find_matched h.sshKeys fun key key' hseals => by
      obtain ⟨-⟩ := hseals
      rfl
  unfold Bastion.loadServerKey
  rcases hkey.lookup_cases with ⟨e, hx, hy⟩ | ⟨hx, hy⟩ | ⟨key, key', hx, hy, hseals⟩
  · rw [hx, hy]
  · rw [hx, hy]
  · rw [hx, hy]
    obtain ⟨hprivate⟩ := hseals
    dsimp only
    rw [hprivate.opens, SecretBox.decryptOrRaw_disabled]

/-- Sealing the secrets of a store changes neither what a target resolves to nor the server's key, for
every user and every hook. -/
theorem resolve_sealed {box : SecretBox} {s stored : Store} {target target' : Host}
    (hstore : SealsStore box s stored) (htarget : SealsHost box target target')
    (hook : Option Access.Hook) (maxHops : Nat) (user : User) (calls : List Access.HookCall) :
    let r : Resolver := { store := s, box := .disabled, hook, maxHops }
    let sealed : Resolver := { store := stored, box, hook, maxHops }
    Resolver.SameOutcome (List.Forall₂ (SameHop box)) ((r.resolve user target).run calls)
        ((sealed.resolve user target').run calls) ∧
      Bastion.loadServerKey stored box = Bastion.loadServerKey s .disabled := by
  intro r sealed
  have h : r.Seals sealed := ⟨hstore, rfl, rfl, rfl⟩
  have hname : target'.name = target.name := htarget.same Host.name fun _ => rfl
  refine ⟨?_, loadServerKey_sealed hstore⟩
  unfold Resolver.resolve
  rw [hname]
  exact Resolver.walk_sealed h user target.name maxHops [] calls .nil htarget

/-- A host with a password, open to its user, in a store whose server key is not a key file. -/
theorem resolve_sealed_password :
    let ann : User := { id := 1, name := "ann", email := "ann@x", groupIds := [1] }
    let web : Host :=
      { id := 1, name := "web", addr := "10.0.0.1:2022", user := "root", password := "hunter2", groupIds := [1] }
    let key : SshKey := { id := 1, name := "host", keyType := "", privateKey := "lost" }
    let group : Group := { id := 1, name := "ops", aclIds := [1] }
    let rule : Acl := { id := 1, action := "allow", weight := 1 }
    let box := SecretBox.ofSecret "s3cret"
    let sealedWeb := { web with password := box.encrypt (List.replicate 12 7) web.password }
    let sealedKey := { key with privateKey := box.encrypt (List.replicate 12 8) key.privateKey }
    let rules := ((Store.empty.putBytes .userGroups 1 (MessagePack.encode group)).putBytes .hostGroups 1
      (MessagePack.encode group)).putBytes .acls 1 (MessagePack.encode rule)
    let s := (rules.putBytes .hosts 1 (MessagePack.encode web)).putBytes .sshKeys 1 (MessagePack.encode key)
    let stored := (rules.putBytes .hosts 1 (MessagePack.encode sealedWeb)).putBytes .sshKeys 1
      (MessagePack.encode sealedKey)
    let r : Resolver := { store := stored, box, hook := none, maxHops := 1 }
    SealsStore box s stored ∧ SealsHost box web sealedWeb ∧
      (∃ spec, ((r.resolve ann sealedWeb).run []).1 = .ok [spec] ∧ spec.address = ⟨"10.0.0.1", 2022⟩ ∧
        spec.credentials = [.password "hunter2"]) ∧
      Bastion.loadServerKey stored box = .error (.key .unrecognised) := by
  intro ann web key group rule box sealedWeb sealedKey rules s stored r
  have hpassword : box.Seals web.password (box.encrypt (List.replicate 12 7) web.password) :=
    .sealed (by decide) rfl
  have hprivate : box.Seals key.privateKey (box.encrypt (List.replicate 12 8) key.privateKey) :=
    .sealed (by decide) rfl
  have hweb : SealsHost box web sealedWeb := .sealed hpassword
  have hkey : SealsKey box key sealedKey := .sealed hprivate
  have hstore : SealsStore box s stored := by
    refine ⟨.cons ⟨rfl, ?_⟩ .nil, .cons ⟨rfl, ?_⟩ .nil, fun t hhosts hkeys => ?_⟩
    · rw [Store.decode_encode web (by decide +kernel), Store.decode_encode sealedWeb (by decide +kernel)]
      exact .ok hweb
    · rw [Store.decode_encode key (by decide +kernel), Store.decode_encode sealedKey (by decide +kernel)]
      exact .ok hkey
    · have hrules : ∀ host key, ((rules.putBytes .hosts 1 host).putBytes .sshKeys 1 key).rows t =
          rules.rows t := fun host key => (if_neg hkeys).trans (if_neg hhosts)
      exact (hrules _ _).trans (hrules _ _).symm
  obtain ⟨hresolve, hserver⟩ := resolve_sealed hstore hweb none 1 ann []
  have hplain : ((Resolver.resolve ⟨s, .disabled, none, 1⟩ ann web).run []).1.toOption =
      some [⟨web, ⟨"10.0.0.1", 2022⟩, "root", [.password "hunter2"]⟩] := by decide +kernel
  have hfound : s.sshKeyNamed Bastion.serverKeyName = .ok (some key) := by decide +kernel
  have hparse : Key.PrivateKey.parse key.privateKey = .error .unrecognised := by decide +kernel
  refine ⟨hstore, hweb, ?_, ?_⟩
  · rcases hresolve.cases with ⟨e, calls, hx, -⟩ | ⟨plan, plan', calls, hx, hy, hplans⟩
    · rw [hx] at hplain
      cases hplain
    · rw [hx] at hplain
      cases hplain
      rcases hplans with _ | ⟨hhop, hrest⟩
      cases hrest
      exact ⟨_, congrArg Prod.fst hy, hhop.address, hhop.credentials⟩
  · rw [hserver, Bastion.loadServerKey, hfound]
    dsimp only
    rw [SecretBox.decryptOrRaw_disabled, hparse]
    rfl

end Dial

end Gatehouse
