import Gatehouse.Proofs.Dial.Connect

/-!
# The order of dialing

`connect_in_order`: whatever the hosts of a plan do, the next one is contacted only after the one before it
has passed (`Passes`): its key is trusted, it has accepted a credential, and it opens the tunnel. No
credential is offered before the key is trusted, and none after the first that is accepted. Dialing succeeds
if every host passes, and otherwise it ends at the first that does not (`FailsAt`): with the error of that
host, no later one contacted or written, and all that were logged in to disconnected in reverse order.

Proof. After some hosts have been contacted the events are justified (`Reached`), and of the pins just
those of these hosts are written (`Kept`). The next host keeps this (`Reached.visit`, `greet_cases`), and
dialing goes on behind it if it passes (`outcome_connectFrom`). As hosts have different identifiers, the row
of the next host is still what it was in the beginning, so that its key is trusted or not as it was then.
-/

namespace Gatehouse

namespace Store

variable {s s' : Store} {id : Id} {key : Bytes} {row : Host}

/-- The row of the host with this key as its pin is not too long for the store's file. -/
def HasRoom (s : Store) (id : Id) (key : Bytes) : Prop :=
  ∃ row, s.host id = .ok (some row) ∧ (MessagePack.encode { row with hostKey := key }).length ≤ valueLimit

theorem pinHostKey_of_host (hrow : s.host id = .ok (some row)) (key : Bytes) :
    s.pinHostKey id key = s.write .hosts id (MessagePack.encode { row with hostKey := key }) := by
  have hget : s.get Host .hosts id = .ok (some row) := hrow
  rw [pinHostKey, modify, hget]
  change ((s.write .hosts id _ >>= fun s => pure (some s)) >>= _) = _
  rcases s.write .hosts id _ with e | s' <;> rfl

theorem get?_pinHostKey (h : s.pinHostKey id key = .ok s') {t : Table} {id' : Id}
    (hother : ¬ (t = .hosts ∧ id' = id)) : (s'.rows t).get? id' = (s.rows t).get? id' := by
  obtain ⟨found, hmodify, hrest⟩ := exists_of_bind_eq_ok h
  rcases found with _ | s₁
  · cases hrest
  cases hrest
  obtain ⟨found, -, hrest⟩ := exists_of_bind_eq_ok hmodify
  rcases found with _ | row
  · cases hrest
  obtain ⟨s₂, hwrite, heq⟩ := exists_of_bind_eq_ok hrest
  cases heq
  obtain ⟨-, rfl⟩ := write_eq_ok_iff.mp hwrite
  rw [get?_putBytes, if_neg hother]

end Store

namespace Dial

variable {network : Nat → Peer} {s s' : Store} {plan : List Spec} {spec : Spec} {key : Bytes}

/-! ### Credentials -/

/-- Whether a host accepts a credential. An attempt that fails is as good as a refusal. -/
def Peer.takes (peer : Peer) (credential : Credential) : Bool :=
  match peer.accepts credential with
  | .ok accepted => accepted
  | .error _ => false

/-- Those of the credentials that are not after the first one that is accepted. -/
def Peer.tried (peer : Peer) (credentials : List Credential) : List Credential :=
  credentials.takeWhile (fun credential => !peer.takes credential) ++
    (credentials.find? peer.takes).toList

theorem logIn_eq (peer : Peer) (hop : Nat) (credentials : List Credential) :
    logIn peer hop credentials =
      ((peer.tried credentials).map (.offered hop) ++
        if credentials.any peer.takes then [.loggedIn hop] else [], credentials.any peer.takes) := by
  induction credentials with
  | nil => rfl
  | cons credential more ih =>
    have htakes : peer.takes credential = match peer.accepts credential with
      | .ok accepted => accepted
      | .error _ => false := rfl
    rw [logIn]
    split
    · next h =>
      rw [h] at htakes
      simp [Peer.tried, htakes]
    all_goals
      next h =>
        rw [h] at htakes
        simp [ih, Peer.tried, htakes]

/-! ### Hosts that pass -/

/-- The key is the one that is pinned, or nothing is pinned and the store has room for it. -/
def Spec.Trusts (spec : Spec) (s : Store) (key : Bytes) : Prop :=
  spec.host.hostKey = key ∨ spec.host.hostKey = [] ∧ s.HasRoom spec.host.id key

/-- A host of the plan does all that is asked of it. -/
def Passes (network : Nat → Peer) (s : Store) (plan : List Spec) (hop : Nat) : Prop :=
  ∃ spec key, plan[hop]? = some spec ∧ (network hop).key = .ok key ∧ spec.Trusts s key ∧
    spec.credentials.any (network hop).takes = true ∧
    (hop + 1 < plan.length → (network hop).tunnel = .ok ())

/-- How a host of the plan fails to pass, and the error that says so. -/
inductive HopError (network : Nat → Peer) (s : Store) (plan : List Spec) (hop : Nat) (spec : Spec) :
    BastionError → Prop where
  | unreachable (e : TransportError) (h : (network hop).key = .error e) :
    HopError network s plan hop spec (.transport e)
  | changed (key : Bytes) (h : (network hop).key = .ok key) (hpin : spec.host.hostKey ≠ [])
    (hkey : spec.host.hostKey ≠ key) : HopError network s plan hop spec (.hostKeyMismatch spec.host.name)
  | unpinnable (key : Bytes) (row : Host) (h : (network hop).key = .ok key) (hpin : spec.host.hostKey = [])
    (hrow : s.host spec.host.id = .ok (some row))
    (hroom : Store.valueLimit < (MessagePack.encode { row with hostKey := key }).length) :
    HopError network s plan hop spec
      (.store (.tooLong (MessagePack.encode { row with hostKey := key }).length))
  | rejected (key : Bytes) (h : (network hop).key = .ok key) (htrusts : spec.Trusts s key)
    (hnone : spec.credentials.any (network hop).takes = false) :
    HopError network s plan hop spec (.rejectedCredentials spec.host.name)
  | refused (key : Bytes) (next : Spec) (e : TransportError) (h : (network hop).key = .ok key)
    (htrusts : spec.Trusts s key)
    (htaken : spec.credentials.any (network hop).takes = true)
    (hnext : plan[hop + 1]? = some next) (htunnel : (network hop).tunnel = .error e) :
    HopError network s plan hop spec (.tunnel next.address.host next.address.port e)

/-- The hosts of the plan have different identifiers, their rows have the pins of the plan, and no key that
a host presents is empty. -/
structure Dialable (network : Nat → Peer) (s : Store) (plan : List Spec) : Prop where
  distinct : (plan.map fun spec => spec.host.id).Nodup
  rows : ∀ spec ∈ plan, ∃ row, s.host spec.host.id = .ok (some row) ∧ row.hostKey = spec.host.hostKey
  keys : ∀ hop, (network hop).key ≠ .ok []

/-! ### What is done -/

def DialEvent.hop : DialEvent → Nat
  | .contacted hop | .trusted hop _ | .offered hop _ | .loggedIn hop | .tunneled hop _
  | .disconnected hop => hop

/-- The credentials that are offered to a host. -/
def offers (hop : Nat) (events : List DialEvent) : List Credential :=
  events.filterMap fun
    | .offered other credential => if other = hop then some credential else none
    | _ => none

/-- The hosts that are logged in to. -/
def logins (events : List DialEvent) : List Nat :=
  events.filterMap fun
    | .loggedIn hop => some hop
    | _ => none

/-- The hosts that are disconnected. -/
def hangUps (events : List DialEvent) : List Nat :=
  events.filterMap fun
    | .disconnected hop => some hop
    | _ => none

/-- What must have happened before something is done. -/
def Justified (network : Nat → Peer) (s : Store) (plan : List Spec) (before : List DialEvent) :
    DialEvent → Prop
  | .contacted 0 => True
  | .contacted (hop + 1) => Passes network s plan hop ∧ (∃ key, .trusted hop key ∈ before) ∧
      .loggedIn hop ∈ before ∧ ∃ next, plan[hop + 1]? = some next ∧ .tunneled hop next.address ∈ before
  | .trusted hop key => .contacted hop ∈ before ∧ (network hop).key = .ok key ∧
      ∃ spec, plan[hop]? = some spec ∧ spec.Trusts s key
  | .offered hop _ => ∃ key, .trusted hop key ∈ before
  | .loggedIn hop => ∃ credential, .offered hop credential ∈ before ∧ (network hop).takes credential = true
  | .tunneled hop address => .loggedIn hop ∈ before ∧
      ∃ next, plan[hop + 1]? = some next ∧ next.address = address
  | .disconnected hop => .loggedIn hop ∈ before

/-- Everything is done only after what must have happened before it. -/
def AllJustified (network : Nat → Peer) (s : Store) (plan : List Spec) (events : List DialEvent) : Prop :=
  ∀ before event after, events = before ++ event :: after → Justified network s plan before event

theorem AllJustified.concat {events : List DialEvent} {event : DialEvent}
    (h : AllJustified network s plan events) (hevent : Justified network s plan events event) :
    AllJustified network s plan (events ++ [event]) := by
  intro before event' after heq
  rcases List.append_eq_append_iff.mp heq with ⟨more, rfl, hlast⟩ | ⟨more, rfl, hlast⟩
  · rcases more with _ | ⟨first, more⟩
    · cases hlast
      simpa using hevent
    · simp at hlast
  · rcases more with _ | ⟨first, more⟩
    · cases hlast
      simpa using hevent
    · cases hlast
      exact h before event' more rfl

theorem AllJustified.append {events more : List DialEvent} (h : AllJustified network s plan events)
    (hmore : ∀ event ∈ more, ∀ between, Justified network s plan (events ++ between) event) :
    AllJustified network s plan (events ++ more) := by
  induction more using List.reverseRecOn with
  | nil => rwa [List.append_nil]
  | append_singleton more last ih =>
    rw [← List.append_assoc]
    exact (ih fun event hevent => hmore event (List.mem_append_left _ hevent)).concat
      (hmore last (List.mem_append_right _ (List.mem_singleton_self _)) more)

/-- What is done at a host whose key is trusted. -/
def visit (network : Nat → Peer) (plan : List Spec) (hop : Nat) (spec : Spec) (key : Bytes) :
    List DialEvent :=
  [.contacted hop, .trusted hop key] ++ ((network hop).tried spec.credentials).map (.offered hop) ++
    if spec.credentials.any (network hop).takes then
      .loggedIn hop :: plan[hop + 1]?.toList.map fun next => .tunneled hop next.address
    else []

section

variable {hop : Nat}

theorem hop_of_mem_visit {event : DialEvent} (h : event ∈ visit network plan hop spec key) :
    event.hop = hop := by
  unfold visit at h
  split_ifs at h <;>
    simp only [List.mem_append, List.mem_cons, List.mem_map, List.not_mem_nil, or_false] at h
  · rcases h with ((rfl | rfl) | ⟨_, _, rfl⟩) | rfl | ⟨_, _, rfl⟩ <;> rfl
  · rcases h with (rfl | rfl) | ⟨_, _, rfl⟩ <;> rfl

theorem offers_visit : offers hop (visit network plan hop spec key) =
    (network hop).tried spec.credentials := by
  have hrest : offers hop (if spec.credentials.any (network hop).takes then
      .loggedIn hop :: plan[hop + 1]?.toList.map fun next => .tunneled hop next.address else []) = [] := by
    split_ifs <;> simp [offers]
  rw [offers] at hrest
  simp only [visit, offers, List.filterMap_append, hrest]
  simp [List.filterMap_map]

theorem logins_visit : logins (visit network plan hop spec key) =
    if spec.credentials.any (network hop).takes then [hop] else [] := by
  unfold visit
  split_ifs <;> simp [logins, List.filterMap_map]

theorem hangUps_visit : hangUps (visit network plan hop spec key) = [] := by
  unfold visit
  split_ifs <;> simp [hangUps, List.filterMap_map]

theorem offers_eq_nil {events : List DialEvent} (h : ∀ event ∈ events, event.hop ≠ hop) :
    offers hop events = [] := by
  rw [offers, List.filterMap_eq_nil_iff]
  intro event hevent
  have hother := h event hevent
  cases event <;> simp_all [DialEvent.hop]

theorem mem_logins_iff {events : List DialEvent} : hop ∈ logins events ↔ .loggedIn hop ∈ events := by
  rw [logins, List.mem_filterMap]
  constructor
  · rintro ⟨event, hevent, heq⟩
    cases event <;> simp at heq
    exact heq ▸ hevent
  · exact fun h => ⟨_, h, rfl⟩

end

/-! ### The events -/

/-- What the events are when no more than the first `n` hosts have been contacted. -/
structure Reached (network : Nat → Peer) (s : Store) (plan : List Spec) (n : Nat)
    (events : List DialEvent) : Prop where
  justified : AllJustified network s plan events
  hop_lt : ∀ event ∈ events, event.hop < n
  offered : ∀ hop spec key, plan[hop]? = some spec → .trusted hop key ∈ events →
    offers hop events = (network hop).tried spec.credentials
  hangUps : hangUps events = []

section

variable {n : Nat} {events : List DialEvent}

theorem Reached.contact (h : Reached network s plan n events)
    (hready : Justified network s plan events (.contacted n)) :
    Reached network s plan (n + 1) (events ++ [.contacted n]) := by
  refine ⟨h.justified.concat hready, fun event hevent => ?_, fun hop spec key hspec htrusted => ?_, ?_⟩
  · rcases List.mem_append.mp hevent with hevent | hevent
    · exact Nat.lt_succ_of_lt (h.hop_lt event hevent)
    · rw [List.mem_singleton.mp hevent]
      exact Nat.lt_succ_self n
  · have hold : .trusted hop key ∈ events := by simpa using htrusted
    simpa [offers] using h.offered hop spec key hspec hold
  · simpa [Dial.hangUps] using h.hangUps

theorem justified_visit (h : AllJustified network s plan events)
    (hready : Justified network s plan events (.contacted n)) (hspec : plan[n]? = some spec)
    (hkey : (network n).key = .ok key) (htrusts : spec.Trusts s key) :
    AllJustified network s plan (events ++ visit network plan n spec key) := by
  have htrusted : Justified network s plan (events ++ [.contacted n]) (.trusted n key) :=
    ⟨by simp, hkey, spec, hspec, htrusts⟩
  have hgreeted := (h.concat hready).concat htrusted
  have hoffers : ∀ event ∈ ((network n).tried spec.credentials).map (.offered n), ∀ between,
      Justified network s plan (events ++ [.contacted n] ++ [.trusted n key] ++ between) event := by
    intro event hevent between
    obtain ⟨credential, -, rfl⟩ := List.mem_map.mp hevent
    exact ⟨key, by simp⟩
  have htried := hgreeted.append hoffers
  unfold visit
  split_ifs with htaken
  · obtain ⟨credential, hfound⟩ : ∃ credential, spec.credentials.find? (network n).takes = some credential :=
      Option.isSome_iff_exists.mp (by simpa using htaken)
    have hlogin : Justified network s plan (events ++ [.contacted n] ++ [.trusted n key] ++
        ((network n).tried spec.credentials).map (.offered n)) (.loggedIn n) :=
      ⟨credential, by simp [Peer.tried, hfound], List.find?_some hfound⟩
    have htunnels : ∀ event ∈ plan[n + 1]?.toList.map fun next => .tunneled n next.address, ∀ between,
        Justified network s plan (events ++ [.contacted n] ++ [.trusted n key] ++
          ((network n).tried spec.credentials).map (.offered n) ++ [.loggedIn n] ++ between) event := by
      intro event hevent between
      obtain ⟨next, hnext, rfl⟩ := List.mem_map.mp hevent
      exact ⟨by simp, next, by simpa using hnext, rfl⟩
    simpa using (htried.concat hlogin).append htunnels
  · simpa using htried

theorem Reached.visit (h : Reached network s plan n events)
    (hready : Justified network s plan events (.contacted n)) (hspec : plan[n]? = some spec)
    (hkey : (network n).key = .ok key) (htrusts : spec.Trusts s key) :
    Reached network s plan (n + 1) (events ++ visit network plan n spec key) := by
  have hvisit {event : DialEvent} (hevent : event ∈ Dial.visit network plan n spec key) : event.hop = n :=
    hop_of_mem_visit hevent
  refine ⟨justified_visit h.justified hready hspec hkey htrusts, fun event hevent => ?_,
    fun hop spec' key' hspec' htrusted => ?_, ?_⟩
  · rcases List.mem_append.mp hevent with hevent | hevent
    · exact Nat.lt_succ_of_lt (h.hop_lt event hevent)
    · rw [hvisit hevent]
      exact Nat.lt_succ_self n
  · have happend : offers hop (events ++ Dial.visit network plan n spec key) =
        offers hop events ++ offers hop (Dial.visit network plan n spec key) := List.filterMap_append
    rw [happend]
    by_cases hhop : hop = n
    · subst hhop
      rw [hspec] at hspec'
      cases hspec'
      rw [offers_visit, offers_eq_nil fun event hevent => Nat.ne_of_lt (h.hop_lt event hevent),
        List.nil_append]
    · have hnone : offers hop (Dial.visit network plan n spec key) = [] :=
        offers_eq_nil fun event hevent => hvisit hevent ▸ Ne.symm hhop
      rw [hnone, List.append_nil]
      rcases List.mem_append.mp htrusted with hold | hnew
      · exact h.offered hop spec' key' hspec' hold
      · exact absurd (hvisit hnew) hhop
  · have happend : Dial.hangUps (events ++ Dial.visit network plan n spec key) =
        Dial.hangUps events ++ Dial.hangUps (Dial.visit network plan n spec key) := List.filterMap_append
    rw [happend, h.hangUps, hangUps_visit, List.append_nil]

end

/-! ### The pins -/

/-- What the store is when no more than the first `n` hosts have been contacted. -/
structure Kept (network : Nat → Peer) (s : Store) (plan : List Spec) (n : Nat) (s' : Store) : Prop where
  unchanged : ∀ t id, (∀ hop < n, ∀ spec, plan[hop]? = some spec → spec.host.hostKey = [] →
    ¬ (t = .hosts ∧ id = spec.host.id)) → (s'.rows t).get? id = (s.rows t).get? id
  pinned : ∀ hop < n, ∀ spec, plan[hop]? = some spec → spec.host.hostKey = [] → ∀ key ≠ [],
    s'.pin? spec.host.id = some key ↔ (network hop).key = .ok key ∧ s.HasRoom spec.host.id key

section

variable {n : Nat} {s₁ : Store}

theorem Dialable.id_ne (h : Dialable network s plan) {hop hop' : Nat} {spec' : Spec}
    (hspec : plan[hop]? = some spec) (hspec' : plan[hop']? = some spec') (hne : hop ≠ hop') :
    spec.host.id ≠ spec'.host.id := by
  obtain ⟨hlt, rfl⟩ := List.getElem?_eq_some_iff.mp hspec
  obtain ⟨hlt', rfl⟩ := List.getElem?_eq_some_iff.mp hspec'
  intro heq
  refine hne ((@List.Nodup.getElem_inj_iff _ _ h.distinct hop (by simpa using hlt) hop'
    (by simpa using hlt')).mp ?_)
  simpa using heq

/-- The row of a host that has not been contacted is what it was. -/
theorem Kept.row_eq (h : Kept network s plan n s') (hd : Dialable network s plan) {hop : Nat}
    (hspec : plan[hop]? = some spec) (hhop : n ≤ hop) :
    (s'.rows .hosts).get? spec.host.id = (s.rows .hosts).get? spec.host.id :=
  h.unchanged .hosts spec.host.id fun earlier hearlier spec' hspec' _ hsame =>
    hd.id_ne hspec hspec' (by omega) hsame.2

theorem host_congr {id : Id} (h : (s'.rows .hosts).get? id = (s.rows .hosts).get? id) :
    s'.host id = s.host id := by
  rw [Store.host, Store.host, Store.get, Store.get, h]

theorem Kept.host_eq (h : Kept network s plan n s') (hd : Dialable network s plan) {hop : Nat}
    (hspec : plan[hop]? = some spec) (hhop : n ≤ hop) : s'.host spec.host.id = s.host spec.host.id :=
  host_congr (h.row_eq hd hspec hhop)

/-- The next host had a pin, or it has given no key that could be pinned. -/
theorem Kept.skip (h : Kept network s plan n s') (hd : Dialable network s plan)
    (hspec : plan[n]? = some spec) (hskip : spec.host.hostKey = [] → ∀ key, (network n).key = .ok key →
      ¬ s.HasRoom spec.host.id key) : Kept network s plan (n + 1) s' := by
  constructor
  · exact fun t id hother => h.unchanged t id fun hop hhop => hother hop (Nat.lt_succ_of_lt hhop)
  · intro hop hhop spec' hspec' hnone key hkey
    rcases Nat.lt_succ_iff_lt_or_eq.mp hhop with hlt | rfl
    · exact h.pinned hop hlt spec' hspec' hnone key hkey
    · rw [hspec] at hspec'
      cases hspec'
      obtain ⟨row, hrow, hpin⟩ := hd.rows spec (List.mem_of_getElem? hspec)
      rw [Store.pin?_of_host ((h.host_eq hd hspec (Nat.le_refl _)).trans hrow), hpin, hnone]
      exact ⟨fun heq => absurd (Option.some.inj heq).symm hkey, fun ⟨hgiven, hroom⟩ =>
        absurd hroom (hskip hnone key hgiven)⟩

/-- The next host had no pin, and the key that it presents is pinned. -/
theorem Kept.pin (h : Kept network s plan n s') (hd : Dialable network s plan)
    (hspec : plan[n]? = some spec) (hnone : spec.host.hostKey = []) (hkey : (network n).key = .ok key)
    (hroom : s.HasRoom spec.host.id key) (hpin : s'.pinHostKey spec.host.id key = .ok s₁) :
    Kept network s plan (n + 1) s₁ := by
  have hpins := (Store.pin?_pinHostKey hpin).2
  constructor
  · intro t id hother
    rw [Store.get?_pinHostKey hpin (hother n (Nat.lt_succ_self n) spec hspec hnone)]
    exact h.unchanged t id fun hop hhop => hother hop (Nat.lt_succ_of_lt hhop)
  · intro hop hhop spec' hspec' hnone' key' hkey'
    rw [hpins]
    rcases Nat.lt_succ_iff_lt_or_eq.mp hhop with hlt | rfl
    · rw [if_neg (hd.id_ne hspec' hspec (Nat.ne_of_lt hlt))]
      exact h.pinned hop hlt spec' hspec' hnone' key' hkey'
    · rw [hspec] at hspec'
      cases hspec'
      rw [if_pos rfl, hkey]
      constructor
      · intro heq
        cases heq
        exact ⟨rfl, hroom⟩
      · rintro ⟨heq, -⟩
        cases heq
        rfl

/-- A host is greeted with the result that its row had in the beginning. -/
theorem greet_cases (hd : Dialable network s plan) (h : Kept network s plan n s')
    (hspec : plan[n]? = some spec) :
    (∃ e, greet (network n) spec s' = .error e ∧ HopError network s plan n spec e ∧
      Kept network s plan (n + 1) s') ∨
    ∃ key s₁, greet (network n) spec s' = .ok (key, s₁) ∧ (network n).key = .ok key ∧
      spec.Trusts s key ∧ Kept network s plan (n + 1) s₁ := by
  obtain ⟨row, hrow, hpin⟩ := hd.rows spec (List.mem_of_getElem? hspec)
  have hrow' := (h.host_eq hd hspec (Nat.le_refl n)).trans hrow
  unfold greet
  rcases hkey : (network n).key with e | key
  · exact .inl ⟨_, rfl, .unreachable e hkey, h.skip hd hspec (by simp [hkey])⟩
  by_cases hnone : spec.host.hostKey = []
  · have hunknown : verifyPinned (Trust.ofHost spec.host).pinned key = .unknown := by
      simp [verifyPinned, Trust.ofHost, hnone]
    have hwrite := Store.pinHostKey_of_host hrow' key
    by_cases hroom : (MessagePack.encode { row with hostKey := key }).length ≤ Store.valueLimit
    · have hpinned : s'.pinHostKey (Trust.ofHost spec.host).hostId key = .ok _ := hwrite.trans (if_pos hroom)
      have htrusts : s.HasRoom spec.host.id key := ⟨row, hrow, hroom⟩
      dsimp only
      rw [Trust.check, hunknown]
      dsimp only
      rw [hpinned]
      exact .inr ⟨key, _, rfl, rfl, .inr ⟨hnone, htrusts⟩, h.pin hd hspec hnone hkey htrusts hpinned⟩
    · have hrefused : s'.pinHostKey (Trust.ofHost spec.host).hostId key = .error _ :=
        hwrite.trans (if_neg hroom)
      dsimp only
      rw [Trust.check, hunknown]
      dsimp only
      rw [hrefused]
      refine .inl ⟨_, rfl, .unpinnable key row hkey hnone hrow (by omega), h.skip hd hspec fun _ => ?_⟩
      rintro key' hkey' ⟨row', hrow'', hroom'⟩
      rw [hkey] at hkey'
      rw [hrow] at hrow''
      cases hkey'
      cases hrow''
      exact hroom hroom'
  · by_cases hsame : spec.host.hostKey = key
    · have hcheck : (Trust.ofHost spec.host).check s' key = .ok (Trust.ofHost spec.host, s') := by
        simp [Trust.check, verifyPinned, Trust.ofHost, ← hsame, hnone]
      dsimp only
      rw [hcheck]
      exact .inr ⟨key, _, rfl, rfl, .inl hsame, h.skip hd hspec (absurd · hnone)⟩
    · have hcheck : (Trust.ofHost spec.host).check s' key = .error (.hostKeyMismatch spec.host.name) := by
        simp [Trust.check, verifyPinned, Trust.ofHost, hsame, hnone]
      dsimp only
      rw [hcheck]
      exact .inl ⟨_, rfl, .changed key hkey hnone hsame, h.skip hd hspec (absurd · hnone)⟩

end

/-! ### Outcomes -/

/-- Dialing ends at this host. The unpinned ones among those that were contacted are pinned if they presented
a key, and nothing else is written. -/
structure FailsAt (network : Nat → Peer) (s : Store) (plan : List Spec) (d : Dialed) (hop : Nat)
    (e : BastionError) : Prop where
  passes : ∀ earlier < hop, Passes network s plan earlier
  error : ∃ spec, plan[hop]? = some spec ∧ HopError network s plan hop spec e
  uncontacted : ∀ later > hop, .contacted later ∉ d.events
  unwritten : ∀ later > hop, ∀ spec, plan[later]? = some spec →
    (d.store.rows .hosts).get? spec.host.id = (s.rows .hosts).get? spec.host.id
  kept : Kept network s plan (hop + 1) d.store
  /-- All that were logged in to are disconnected, the one nearest to the target first. -/
  hungUp : hangUps d.events = (logins d.events).reverse
  ascend : (logins d.events).Pairwise (· < ·)

/-- What dialing a plan comes to. -/
structure Outcome (network : Nat → Peer) (s : Store) (plan : List Spec) (d : Dialed) : Prop where
  justified : AllJustified network s plan d.events
  offered : ∀ hop spec key, plan[hop]? = some spec → .trusted hop key ∈ d.events →
    offers hop d.events = (network hop).tried spec.credentials
  result : d.result = .ok (List.range plan.length) ∧ (∀ hop < plan.length, Passes network s plan hop) ∨
    ∃ hop e, d.result = .error e ∧ FailsAt network s plan d hop e

/-- The first `n` hosts have been contacted, and all have passed. -/
structure Passed (network : Nat → Peer) (s : Store) (plan : List Spec) (n : Nat) (events : List DialEvent)
    (s' : Store) : Prop where
  reached : Reached network s plan n events
  kept : Kept network s plan n s'
  passes : ∀ hop < n, Passes network s plan hop
  logins : logins events = List.range n
  /-- The next host, if there is one, can be contacted. -/
  ready : n < plan.length → Justified network s plan events (.contacted n)

section

variable {n : Nat} {events more : List DialEvent} {s₁ : Store} {e : BastionError}

/-- When the next host fails to pass, those that are logged in to are disconnected. -/
theorem outcome_of_failure (hd : Dialable network s plan) (hpasses : ∀ hop < n, Passes network s plan hop)
    (hreached : Reached network s plan (n + 1) events) (hkept : Kept network s plan (n + 1) s₁)
    (hspec : plan[n]? = some spec) (herror : HopError network s plan n spec e) {m : Nat}
    (hlogins : logins events = List.range m) :
    Outcome network s plan ⟨s₁, events ++ hangUp (List.range m).reverse, .error e⟩ := by
  have hoffers (hop : Nat) : offers hop (events ++ hangUp (List.range m).reverse) = offers hop events := by
    simp [offers, hangUp, List.filterMap_append, List.filterMap_map]
  have hsame : logins (events ++ hangUp (List.range m).reverse) = List.range m := by
    rw [logins] at hlogins
    simp [logins, hangUp, List.filterMap_append, List.filterMap_map, hlogins]
  have hall : hangUps (events ++ hangUp (List.range m).reverse) = (List.range m).reverse := by
    have hnone := hreached.hangUps
    rw [hangUps] at hnone
    simp [hangUps, hangUp, List.filterMap_append, List.filterMap_map, hnone]
  refine ⟨hreached.justified.append fun event hevent between => ?_, fun hop spec' key hspec' htrusted => ?_,
    .inr ⟨n, e, rfl, hpasses, ⟨spec, hspec, herror⟩, fun later hlater hmem => ?_,
      fun later hlater spec' hspec' => hkept.row_eq hd hspec' hlater, hkept, ?_, ?_⟩⟩
  · obtain ⟨hop, hhop, rfl⟩ := List.mem_map.mp hevent
    rw [List.mem_reverse, ← hlogins, mem_logins_iff] at hhop
    exact List.mem_append_left _ hhop
  · have hold : .trusted hop key ∈ events := by simpa [hangUp] using htrusted
    rw [hoffers]
    exact hreached.offered hop spec' key hspec' hold
  · have hold : .contacted later ∈ events := by simpa [hangUp] using hmem
    have hlt : later < n + 1 := hreached.hop_lt _ hold
    omega
  · rw [hall, hsame]
  · rw [hsame]
    exact List.pairwise_lt_range

theorem outcome_of_passed (h : Passed network s plan plan.length events s') :
    Outcome network s plan ⟨s', events, .ok (List.range plan.length)⟩ :=
  ⟨h.reached.justified, h.reached.offered, .inl ⟨rfl, h.passes⟩⟩

/-- Dialing goes on until a host does not pass. -/
theorem outcome_connectFrom (hd : Dialable network s plan) : ∀ {later : List Spec} {n : Nat}
    {events : List DialEvent} {s' : Store}, Passed network s plan n events s' → plan.drop n = later →
      n ≤ plan.length → Outcome network s plan
        ((connectFrom network s' n (List.range n).reverse later).after events) := by
  intro later
  induction later with
  | nil =>
    intro n events s' h hlater hn
    have hlength : n = plan.length := by
      have := List.drop_eq_nil_iff.mp hlater
      omega
    subst hlength
    simpa [connectFrom, Dialed.after] using outcome_of_passed h
  | cons spec later ih =>
    intro n events s' h hlater hn
    have hspec : plan[n]? = some spec := by rw [← List.head?_drop, hlater]; rfl
    have hnext : plan[n + 1]? = later.head? := by
      rw [← List.head?_drop, ← List.drop_drop, hlater]
      rfl
    have hlt := (List.getElem?_eq_some_iff.mp hspec).1
    have hready := h.ready hlt
    rw [connectFrom]
    rcases greet_cases hd h.kept hspec with ⟨e, hgreet, herror, hkept⟩ |
      ⟨key, s₁, hgreet, hkey, htrusts, hkept⟩
    · have hlogins : logins (events ++ [.contacted n]) = List.range n := by
        simpa [logins] using h.logins
      rw [hgreet]
      simpa [Dialed.after] using
        outcome_of_failure hd h.passes (h.reached.contact hready) hkept hspec herror hlogins
    have hvisited := h.reached.visit hready hspec hkey htrusts
    have hlogins : logins (events ++ visit network plan n spec key) =
        List.range n ++ if spec.credentials.any (network n).takes then [n] else [] := by
      have hvisit : logins (visit network plan n spec key) = _ := logins_visit
      rw [← hvisit, ← h.logins]
      exact List.filterMap_append
    rw [hgreet]
    dsimp only
    rw [logIn_eq]
    by_cases htaken : spec.credentials.any (network n).takes = true
    · rw [if_pos htaken, ← List.range_succ] at hlogins
      have hrest : plan.drop (n + 1) = later := by
        rw [← List.drop_drop, hlater]
        rfl
      have hpassed (htunnel : n + 1 < plan.length → (network n).tunnel = .ok ()) :
          Passed network s plan (n + 1) (events ++ visit network plan n spec key) s₁ := by
        have hpasses : Passes network s plan n := ⟨spec, key, hspec, hkey, htrusts, htaken, htunnel⟩
        refine ⟨hvisited, hkept, fun hop hhop => ?_, hlogins, fun hlt => ?_⟩
        · rcases Nat.lt_succ_iff_lt_or_eq.mp hhop with hlt | rfl
          · exact h.passes hop hlt
          · exact hpasses
        · have hnext : plan[n + 1]? = some plan[n + 1] := List.getElem?_eq_getElem hlt
          exact ⟨hpasses, ⟨key, by simp [visit]⟩, by simp [visit, htaken], _, hnext,
            by simp [visit, htaken, hnext]⟩
      have hreverse : n :: (List.range n).reverse = (List.range (n + 1)).reverse := by
        rw [List.range_succ, List.reverse_concat]
      rcases later with _ | ⟨next, later⟩
      · have hdone := ih (hpassed fun hlt => by simp [List.drop_eq_nil_iff] at hrest; omega) hrest hlt
        rw [List.head?_nil] at hnext
        simpa [Dialed.after, visit, htaken, hnext, hreverse] using hdone
      · rw [List.head?_cons] at hnext
        rcases htunnel : (network n).tunnel with e | ⟨⟩
        · have hrefused := outcome_of_failure hd h.passes hvisited hkept hspec
            (.refused key next e hkey htrusts htaken hnext htunnel) hlogins
          simpa [Dialed.after, visit, htaken, hnext, hreverse] using hrefused
        · have hdone := ih (hpassed fun _ => htunnel) hrest hlt
          simpa [Dialed.after, visit, htaken, hnext, hreverse] using hdone
    · rw [Bool.not_eq_true] at htaken
      rw [if_neg (by simp [htaken]), List.append_nil] at hlogins
      have hrejected := outcome_of_failure hd h.passes hvisited hkept hspec
        (.rejected key hkey htrusts htaken) hlogins
      simpa [Dialed.after, visit, htaken] using hrejected

end

theorem HopError.not_passes (hd : Dialable network s plan) {hop : Nat} {e : BastionError}
    (h : HopError network s plan hop spec e) (hspec : plan[hop]? = some spec) : ¬ Passes network s plan hop := by
  rintro ⟨spec', key', hspec', hkey', htrusts', htaken', htunnel'⟩
  rw [hspec] at hspec'
  cases hspec'
  cases h with
  | unreachable e h => simp [h] at hkey'
  | changed key h hpin hkey =>
    rw [h] at hkey'
    cases hkey'
    exact htrusts'.elim hkey fun hnone => hpin hnone.1
  | unpinnable key row h hpin hrow hlong =>
    rw [h] at hkey'
    cases hkey'
    rcases htrusts' with hempty | ⟨-, row', hrow', hroom⟩
    · exact hd.keys hop (h.trans (by rw [← hempty, hpin]))
    · rw [hrow] at hrow'
      cases hrow'
      omega
  | rejected key h htrusts hnone => simp [hnone] at htaken'
  | refused key next e h htrusts htaken hnext htunnel =>
    have hlt : hop + 1 < plan.length := (List.getElem?_eq_some_iff.mp hnext).1
    simp [htunnel' hlt] at htunnel

/-- Hosts are dialed one after the other, each only after the one before it has passed. Dialing succeeds if
all hosts pass, and fails at the first that does not. -/
theorem connect_in_order (hne : plan ≠ []) (hd : Dialable network s plan) :
    let d := connect network s plan
    AllJustified network s plan d.events ∧
    (∀ hop spec key, plan[hop]? = some spec → .trusted hop key ∈ d.events →
      offers hop d.events = (network hop).tried spec.credentials) ∧
    (∀ hops, d.result = .ok hops ↔
      (∀ hop < plan.length, Passes network s plan hop) ∧ hops = List.range plan.length) ∧
    ∀ e, d.result = .error e → ∃ hop, FailsAt network s plan d hop e := by
  intro d
  have hstart : Passed network s plan 0 [] s :=
    ⟨⟨by simp [AllJustified], by simp, by simp, rfl⟩, ⟨fun _ _ _ => rfl, by simp⟩, by simp, rfl,
      fun _ => trivial⟩
  have hrun : connect network s plan = (connectFrom network s 0 [] plan).after [] := by
    rw [connect, if_neg (by simpa using hne)]
    rfl
  have houtcome : Outcome network s plan d := by
    rw [show d = connect network s plan from rfl, hrun]
    exact outcome_connectFrom hd hstart rfl (Nat.zero_le _)
  refine ⟨houtcome.justified, houtcome.offered, fun hops => ?_, fun e he => ?_⟩
  · rcases houtcome.result with ⟨hresult, hall⟩ | ⟨hop, e, hresult, hfails⟩
    · rw [hresult, Except.ok.injEq]
      exact ⟨fun heq => ⟨hall, heq.symm⟩, fun h => h.2.symm⟩
    · rw [hresult]
      obtain ⟨spec, hspec, herror⟩ := hfails.error
      refine ⟨nofun, fun h => ?_⟩
      exact absurd (h.1 hop (List.getElem?_eq_some_iff.mp hspec).1) (herror.not_passes hd hspec)
  · rcases houtcome.result with ⟨hresult, -⟩ | ⟨hop, e', hresult, hfails⟩
    · rw [hresult] at he
      cases he
    · rw [hresult] at he
      cases he
      exact ⟨hop, hfails⟩

/-- A way that leads through two hosts that are pinned or not. -/
def innerPlan : List Spec :=
  [{ host := { id := 1, name := "gate", addr := "10.0.0.1", user := "" }
     address := ⟨"10.0.0.1", 22⟩, username := "", credentials := [.password "a", .password "b", .password "c"] },
    { host := { id := 2, name := "web", addr := "10.0.0.2", user := "", hostKey := [2] }
      address := ⟨"10.0.0.2", 22⟩, username := "", credentials := [.password "d"] }]

def innerStore : Store :=
  innerPlan.foldl (fun s spec => s.putBytes .hosts spec.host.id (MessagePack.encode spec.host)) .empty

/-- The first host accepts the second password, and the other one has a new key. -/
def innerNetwork : Nat → Peer
  | 0 => { key := .ok [1], accepts := fun c => .ok (c = .password "b"), tunnel := .ok () }
  | _ => { key := .ok [3], accepts := fun _ => .ok true, tunnel := .ok () }

theorem connect_in_order_changed_key :
    let d := connect innerNetwork innerStore innerPlan
    innerPlan ≠ [] ∧ Dialable innerNetwork innerStore innerPlan ∧
    d.events = [.contacted 0, .trusted 0 [1], .offered 0 (.password "a"), .offered 0 (.password "b"),
      .loggedIn 0, .tunneled 0 ⟨"10.0.0.2", 22⟩, .contacted 1, .disconnected 0] ∧
    AllJustified innerNetwork innerStore innerPlan d.events ∧
    d.result = .error (.hostKeyMismatch "web") ∧ ∃ hop, FailsAt innerNetwork innerStore innerPlan d hop
      (.hostKeyMismatch "web") := by
  intro d
  have hdialable : Dialable innerNetwork innerStore innerPlan := by
    refine ⟨by decide, fun spec hspec => ?_, fun hop => ?_⟩
    · have hrow : ∀ spec ∈ innerPlan, innerStore.host spec.host.id = .ok (some spec.host) := by
        decide +kernel
      exact ⟨spec.host, hrow spec hspec, rfl⟩
    · rcases hop with _ | hop <;> simp [innerNetwork]
  have hresult : d.result = .error (.hostKeyMismatch "web") := by decide +kernel
  obtain ⟨hjustified, -, -, hfails⟩ := connect_in_order (by decide) hdialable
  exact ⟨by decide, hdialable, by decide +kernel, hjustified, hresult, hfails _ hresult⟩

end Dial

end Gatehouse
