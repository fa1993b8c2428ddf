import Gatehouse.Dial.Trust
import Gatehouse.Proofs.Store.Reachable
import Mathlib.Data.List.Induction

/-!
# Pinned keys and the connections that check them

Any number of connections read hosts and check presented keys, in any order. A check goes by the pin that
its connection has read, and writes into the row as it is by then.

* `Contacts.keeps_pins_iff`: a step keeps every pin unless it is a check for a host that had no pin when
  the connection read it, and that has been pinned with another key since.
* `Contacts.pins_agree`: this holds of every step of a run, and if no check is such, then all keys that
  were accepted for a host are the same. `Contacts.pin_replaced` is a run in which one check is.

Proof. What a check does is one of two things (`Trust.check_cases`): it compares with the pin it has read
and writes nothing, or it writes the presented key. A write changes the pin of one host only
(`Store.pin?_pinHostKey`). If nothing is overridden, then what a connection has read is still pinned, and
so is what was accepted (`Contacts.Agree`).
-/

namespace Gatehouse

namespace Store

variable {s s' : Store} {id : Id} {key : Bytes}

/-- The pinned key of a host, empty if there is none. -/
def pin? (s : Store) (id : Id) : Option Bytes :=
  match s.host id with
  | .ok (some host) => some host.hostKey
  | _ => none

theorem pin?_of_host {host : Host} (h : s.host id = .ok (some host)) : s.pin? id = some host.hostKey := by
  rw [pin?, h]

/-- Pinning a key changes nothing but the pin of one host, which has a row. -/
theorem pin?_pinHostKey (h : s.pinHostKey id key = .ok s') :
    (∃ old, s.pin? id = some old) ∧
      ∀ id', s'.pin? id' = if id' = id then some key else s.pin? id' := by
  unfold pinHostKey at h
  obtain ⟨found, hmodify, hrest⟩ := exists_of_bind_eq_ok h
  rcases found with _ | s₁
  · cases hrest
  cases hrest
  unfold modify at hmodify
  obtain ⟨found, hget, hrest⟩ := exists_of_bind_eq_ok hmodify
  rcases found with _ | host
  · cases hrest
  obtain ⟨s₂, hwrite, heq⟩ := exists_of_bind_eq_ok hrest
  cases heq
  unfold write at hwrite
  split_ifs at hwrite with hlength
  cases hwrite
  refine ⟨⟨host.hostKey, pin?_of_host hget⟩, fun id' => ?_⟩
  unfold pin? Store.host
  rw [get_putBytes]
  by_cases hid : id' = id
  · rw [if_pos ⟨rfl, hid⟩, if_pos hid, decode_encode _ hlength]
    rfl
  · rw [if_neg fun h => hid h.2, if_neg hid]

end Store

namespace Dial

variable {s s' : Store} {t t' : Trust} {presented : Bytes}

/-- A check that succeeds either finds the key pinned that it has read, and writes nothing, or it has read
no pin and writes the presented key. -/
theorem Trust.check_cases (h : t.check s presented = .ok (t', s')) :
    (t.pinned ≠ [] ∧ presented = t.pinned ∧ t' = t ∧ s' = s) ∨
      (t.pinned = [] ∧ t' = { t with pinned := presented } ∧
        s.pinHostKey t.hostId presented = .ok s') := by
  unfold check verifyPinned at h
  by_cases hempty : t.pinned.isEmpty = true
  · rw [if_pos hempty] at h
    dsimp only at h
    rcases hpin : s.pinHostKey t.hostId presented with e | s₁
    · rw [hpin] at h
      cases h
    · rw [hpin] at h
      cases h
      exact .inr ⟨List.isEmpty_iff.mp hempty, rfl, rfl⟩
  · rw [if_neg hempty] at h
    by_cases hsame : t.pinned = presented
    · rw [if_pos hsame] at h
      cases h
      exact .inl ⟨fun hnone => hempty (List.isEmpty_iff.mpr hnone), hsame.symm, rfl, rfl⟩
    · rw [if_neg hsame] at h
      cases h

/-! ### Connections -/

/-- What happens between connections and hosts. -/
inductive Contact where
  /-- A connection reads a host. -/
  | reads (conn : Nat) (host : Id)
  /-- The host presents a key, which the connection checks. -/
  | presents (conn : Nat) (key : Bytes)
deriving DecidableEq

/-- The key that is presented. -/
def Contact.key? : Contact → Option Bytes
  | .reads _ _ => none
  | .presents _ key => some key

/-- Connections that share a store. -/
structure Contacts where
  store : Store
  /-- What each connection knows of its host. -/
  trusts : Nat → Option Trust := fun _ => none
  /-- The hosts and keys of the checks that succeeded. -/
  accepted : List (Id × Bytes) := []

namespace Contacts

/-- A connection that fails to read its host, or that has read none, does nothing. -/
def step (w : Contacts) : Contact → Contacts
  | .reads conn id =>
    match w.store.host id with
    | .ok (some host) =>
      { w with trusts := fun other => if other = conn then some (.ofHost host) else w.trusts other }
    | _ => w
  | .presents conn key =>
    match w.trusts conn with
    | none => w
    | some t =>
      match t.check w.store key with
      | .error _ => w
      | .ok (t, store) =>
        { store
          trusts := fun other => if other = conn then some t else w.trusts other
          accepted := w.accepted ++ [(t.hostId, key)] }

def run (w : Contacts) (contacts : List Contact) : Contacts :=
  contacts.foldl step w

variable {w : Contacts} {contact : Contact}

/-- A step keeps every pin. -/
def KeepsPins (w : Contacts) (contact : Contact) : Prop :=
  ∀ id key, key ≠ [] → w.store.pin? id = some key → (w.step contact).store.pin? id = some key

/-- A connection that has read no pin pins a key over another one that is pinned by now. -/
def overrides (w : Contacts) : Contact → Bool
  | .reads _ _ => false
  | .presents conn key =>
    (w.trusts conn).any fun t =>
      t.pinned.isEmpty && (t.check w.store key).toOption.isSome &&
        (w.store.pin? t.hostId).any fun pinned => !pinned.isEmpty && pinned != key

theorem overrides_presents {conn : Nat} {key : Bytes} : w.overrides (.presents conn key) = true ↔
    ∃ t pinned result, w.trusts conn = some t ∧ t.pinned = [] ∧
      t.check w.store key = .ok result ∧ w.store.pin? t.hostId = some pinned ∧ pinned ≠ [] ∧
      pinned ≠ key := by
  simp only [overrides, Option.any_eq_true, Bool.and_eq_true, List.isEmpty_iff, Bool.not_eq_true',
    List.isEmpty_eq_false_iff, bne_iff_ne]
  constructor
  · rintro ⟨t, htrust, ⟨hunpinned, hok⟩, pinned, hpin, hpinned, hother⟩
    rcases hcheck : t.check w.store key with e | result
    · rw [hcheck] at hok
      cases hok
    · exact ⟨t, pinned, result, htrust, hunpinned, hcheck, hpin, hpinned, hother⟩
  · rintro ⟨t, pinned, result, htrust, hunpinned, hcheck, hpin, hpinned, hother⟩
    exact ⟨t, htrust, ⟨hunpinned, by rw [hcheck]; rfl⟩, pinned, hpin, hpinned, hother⟩

/-- What becomes of a step. -/
theorem step_cases (w : Contacts) (contact : Contact) :
    w.step contact = w ∨
      (∃ conn id host, contact = .reads conn id ∧ w.store.host id = .ok (some host) ∧
        w.step contact = { w with
          trusts := fun other => if other = conn then some (.ofHost host) else w.trusts other }) ∨
      ∃ conn t key t' store, contact = .presents conn key ∧ w.trusts conn = some t ∧
        t.check w.store key = .ok (t', store) ∧
        w.step contact = {
          store
          trusts := fun other => if other = conn then some t' else w.trusts other
          accepted := w.accepted ++ [(t'.hostId, key)] } := by
  cases contact with
  | reads conn id =>
    simp only [step]
    split
    · next host hhost => exact .inr (.inl ⟨conn, id, host, rfl, hhost, rfl⟩)
    · exact .inl rfl
  | presents conn key =>
    simp only [step]
    rcases htrust : w.trusts conn with _ | t
    · exact .inl rfl
    rcases hcheck : t.check w.store key with e | ⟨t', store⟩
    · left
      simp only [hcheck]
    · right
      right
      refine ⟨conn, t, key, t', store, rfl, htrust, hcheck, ?_⟩
      simp only [hcheck]

/-- A step keeps every pin exactly if it overrides none. -/
theorem keeps_pins_iff (w : Contacts) (contact : Contact) :
    w.KeepsPins contact ↔ w.overrides contact = false := by
  rw [← Bool.not_eq_true]
  constructor
  · intro hkeeps hoverrides
    cases contact with
    | reads => cases hoverrides
    | presents conn key =>
      obtain ⟨t, pinned, ⟨t', store⟩, htrust, hunpinned, hcheck, hpin, hpinned, hother⟩ :=
        overrides_presents.mp hoverrides
      rcases Trust.check_cases hcheck with ⟨hno, -⟩ | ⟨-, -, hwrite⟩
      · exact hno hunpinned
      · have hstep : (w.step (.presents conn key)).store = store := by
          simp only [step, htrust, hcheck]
        have hstays := hkeeps t.hostId pinned hpinned hpin
        rw [hstep, (Store.pin?_pinHostKey hwrite).2, if_pos rfl] at hstays
        exact hother (Option.some.inj hstays).symm
  · intro hnone id key hkey hpin
    rcases w.step_cases contact with hsame | ⟨conn, id', host, -, -, hstep⟩ |
      ⟨conn, t, presented, t', store, rfl, htrust, hcheck, hstep⟩
    · rw [hsame]
      exact hpin
    · rw [hstep]
      exact hpin
    · rw [hstep]
      show store.pin? id = some key
      rcases Trust.check_cases hcheck with ⟨-, -, -, rfl⟩ | ⟨hunpinned, -, hwrite⟩
      · exact hpin
      · rw [(Store.pin?_pinHostKey hwrite).2]
        split_ifs with hid
        · subst hid
          by_contra hother
          have hne : key ≠ presented := fun heq => hother (congrArg some heq.symm)
          exact hnone
            (overrides_presents.mpr ⟨t, key, _, htrust, hunpinned, hcheck, hpin, hkey, hne⟩)
        · exact hpin

theorem wellKept_step (h : w.store.WellKept) (contact : Contact) : (w.step contact).store.WellKept := by
  rcases w.step_cases contact with hsame | ⟨conn, id, host, -, -, hstep⟩ |
    ⟨conn, t, presented, t', store, rfl, htrust, hcheck, hstep⟩
  · rw [hsame]
    exact h
  · rw [hstep]
    exact h
  · rw [hstep]
    rcases Trust.check_cases hcheck with ⟨-, -, -, rfl⟩ | ⟨-, -, hwrite⟩
    · exact h
    · exact Store.wellKept_pinHostKey h hwrite

/-- What a connection comes to know of a host is what is pinned at that moment. -/
theorem known_of_step (h : w.store.WellKept) {conn : Nat} {t : Trust}
    (ht : (w.step contact).trusts conn = some t) :
    w.trusts conn = some t ∨ (w.step contact).store.pin? t.hostId = some t.pinned := by
  rcases w.step_cases contact with hsame | ⟨conn', id, host, -, hhost, hstep⟩ |
    ⟨conn', t₀, presented, t', store, rfl, htrust, hcheck, hstep⟩
  · rw [hsame] at ht
    exact .inl ht
  · rw [hstep] at ht ⊢
    dsimp only at ht ⊢
    split_ifs at ht with hconn
    · cases ht
      have hid : host.id = id := h.id_of_get rfl hhost
      right
      show w.store.pin? host.id = some host.hostKey
      rw [hid]
      exact Store.pin?_of_host hhost
    · exact .inl ht
  · rw [hstep] at ht ⊢
    dsimp only at ht ⊢
    split_ifs at ht with hconn
    · cases ht
      rcases Trust.check_cases hcheck with ⟨-, -, rfl, -⟩ | ⟨-, rfl, hwrite⟩
      · exact .inl (hconn ▸ htrust)
      · exact .inr (by rw [(Store.pin?_pinHostKey hwrite).2, if_pos rfl])
    · exact .inl ht

/-- What connections know of pins, and what they have accepted, is still pinned. -/
structure Agree (w : Contacts) : Prop where
  known : ∀ conn t, w.trusts conn = some t → t.pinned ≠ [] →
    w.store.pin? t.hostId = some t.pinned
  accepted : ∀ entry ∈ w.accepted, entry.2 ≠ [] ∧ w.store.pin? entry.1 = some entry.2

theorem Agree.step (h : Agree w) (hkept : w.store.WellKept) (hkey : contact.key? ≠ some [])
    (hnone : w.overrides contact = false) : Agree (w.step contact) := by
  have hkeeps := (w.keeps_pins_iff contact).mpr hnone
  constructor
  · intro conn t ht hpinned
    rcases known_of_step hkept ht with hold | hnow
    · exact hkeeps _ _ hpinned (h.known conn t hold hpinned)
    · exact hnow
  · intro entry hmem
    have hold : entry ∈ w.accepted →
        entry.2 ≠ [] ∧ (w.step contact).store.pin? entry.1 = some entry.2 := by
      intro hmem
      obtain ⟨hne, hpin⟩ := h.accepted entry hmem
      exact ⟨hne, hkeeps _ _ hne hpin⟩
    rcases w.step_cases contact with hsame | ⟨conn, id, host, -, -, hstep⟩ |
      ⟨conn, t, presented, t', store, rfl, htrust, hcheck, hstep⟩
    · rw [hsame] at hmem
      exact hold hmem
    · rw [hstep] at hmem
      exact hold hmem
    · have hne : presented ≠ [] := fun heq => hkey (congrArg some heq)
      rw [hstep] at hmem
      rcases List.mem_append.mp hmem with hmem | hmem
      · exact hold hmem
      · rw [List.mem_singleton.mp hmem, hstep]
        refine ⟨hne, ?_⟩
        rcases Trust.check_cases hcheck with ⟨hpinned, rfl, rfl, rfl⟩ | ⟨-, rfl, hwrite⟩
        · exact h.known conn _ htrust hpinned
        · exact ((Store.pin?_pinHostKey hwrite).2 t.hostId).trans (if_pos rfl)

/-! ### Runs -/

theorem run_snoc (w : Contacts) (contacts : List Contact) (contact : Contact) :
    w.run (contacts ++ [contact]) = (w.run contacts).step contact :=
  List.foldl_append

theorem wellKept_run (h : w.store.WellKept) (contacts : List Contact) :
    (w.run contacts).store.WellKept := by
  induction contacts using List.reverseRecOn with
  | nil => exact h
  | append_singleton contacts contact ih =>
    rw [run_snoc]
    exact wellKept_step ih contact

/-- What a connection knows of a host was pinned at some moment of the run. -/
theorem known_of_run {s : Store} (hkept : s.WellKept) {contacts : List Contact} {conn : Nat} {t : Trust}
    (ht : (run { store := s } contacts).trusts conn = some t) :
    ∃ before, before <+: contacts ∧
      (run { store := s } before).store.pin? t.hostId = some t.pinned := by
  induction contacts using List.reverseRecOn with
  | nil => cases ht
  | append_singleton contacts contact ih =>
    rw [run_snoc] at ht
    rcases known_of_step (wellKept_run hkept contacts) ht with hold | hnow
    · obtain ⟨before, hprefix, hpin⟩ := ih hold
      exact ⟨before, hprefix.trans (List.prefix_append _ _), hpin⟩
    · refine ⟨contacts ++ [contact], List.prefix_refl _, ?_⟩
      rw [run_snoc]
      exact hnow

/-- No step of a run overrides a pin. -/
def careful (w : Contacts) : List Contact → Bool
  | [] => true
  | contact :: more => !w.overrides contact && (w.step contact).careful more

theorem Agree.run {contacts : List Contact} : ∀ {w : Contacts}, Agree w → w.store.WellKept →
    (∀ contact ∈ contacts, contact.key? ≠ some []) → w.careful contacts = true →
    Agree (w.run contacts) := by
  induction contacts with
  | nil =>
    intro w h _ _ _
    exact h
  | cons contact more ih =>
    intro w h hkept hkeys hcareful
    rw [careful, Bool.and_eq_true, Bool.not_eq_true'] at hcareful
    have hnext := h.step hkept (hkeys contact List.mem_cons_self) hcareful.1
    exact ih hnext (wellKept_step hkept contact) (fun c hc => hkeys c (List.mem_cons_of_mem _ hc))
      hcareful.2

/-- Whatever has happened between connections and hosts, what a connection knows of a host was pinned at
some moment, and the next step keeps all pins unless it overrides one. As long as no step does, all keys
that are accepted for a host are the same. -/
theorem pins_agree {s : Store} {contacts : List Contact} (hkept : s.WellKept)
    (hkeys : ∀ contact ∈ contacts, contact.key? ≠ some []) :
    let w := run { store := s } contacts
    (∀ contact, w.KeepsPins contact ↔ w.overrides contact = false) ∧
      (∀ conn t, w.trusts conn = some t → ∃ before, before <+: contacts ∧
        (run { store := s } before).store.pin? t.hostId = some t.pinned) ∧
      (careful { store := s } contacts = true →
        ∀ id key key', (id, key) ∈ w.accepted → (id, key') ∈ w.accepted → key = key') := by
  intro w
  refine ⟨w.keeps_pins_iff, fun conn t ht => known_of_run hkept ht, fun hcareful => ?_⟩
  intro id key key' hmem hmem'
  have hstart : Agree { store := s } := ⟨nofun, nofun⟩
  have hagree := hstart.run hkept hkeys hcareful
  obtain ⟨-, hpin⟩ := hagree.accepted _ hmem
  obtain ⟨-, hpin'⟩ := hagree.accepted _ hmem'
  exact Option.some.inj (hpin.symm.trans hpin')

/-- A store with one host, which no connection has been to. -/
def untouched : Store :=
  Store.empty.putBytes .hosts 1 <| MessagePack.encode
    ({ id := 1, name := "web", addr := "10.0.0.1", user := "" } : Host)

theorem wellKept_untouched : untouched.WellKept := by
  have hempty : Store.empty.WellKept := by
    intro t row hrow
    cases hrow
  have hwrite : Store.empty.write .hosts 1 _ = .ok untouched := if_pos (by decide +kernel)
  exact Store.wellKept_write hempty hwrite rfl rfl

/-- Two connections, one after the other. -/
theorem pins_agree_second_use :
    let contacts : List Contact :=
      [.reads 0 1, .presents 0 [75, 49], .reads 1 1, .presents 1 [75, 49], .presents 1 [75, 50]]
    let w := run { store := untouched } contacts
    untouched.WellKept ∧ (∀ contact ∈ contacts, contact.key? ≠ some []) ∧
      careful { store := untouched } contacts = true ∧
      w.accepted = [(1, [75, 49]), (1, [75, 49])] ∧
      ∀ id key key', (id, key) ∈ w.accepted → (id, key') ∈ w.accepted → key = key' := by
  intro contacts w
  have hkeys : ∀ contact ∈ contacts, contact.key? ≠ some [] := by decide
  have hcareful : careful { store := untouched } contacts = true := by decide +kernel
  have haccepted : w.accepted = [(1, [75, 49]), (1, [75, 49])] := by decide +kernel
  exact ⟨wellKept_untouched, hkeys, hcareful, haccepted,
    (pins_agree wellKept_untouched hkeys).2.2 hcareful⟩

/-- Two connections that both read a host before it is pinned: the key of the second replaces the pinned
one, and both keys are accepted. -/
theorem pin_replaced :
    let contacts : List Contact := [.reads 0 1, .reads 1 1, .presents 0 [75, 49], .presents 1 [75, 50]]
    let w := run { store := untouched } contacts
    untouched.WellKept ∧ (∀ contact ∈ contacts, contact.key? ≠ some []) ∧
      (run { store := untouched } (contacts.take 3)).store.pin? 1 = some [75, 49] ∧
      w.store.pin? 1 = some [75, 50] ∧ (1, [75, 49]) ∈ w.accepted ∧ (1, [75, 50]) ∈ w.accepted := by
  intro contacts w
  refine ⟨wellKept_untouched, by decide, by decide +kernel, by decide +kernel, ?_, ?_⟩
  · decide +kernel
  · decide +kernel

end Contacts

end Dial

end Gatehouse
