import Gatehouse.Proofs.Access.Counting
import Gatehouse.Proofs.Store.Journal
import Mathlib.Order.Monotone.Defs

/-!
# Decisions while rules change

A decision reads the user's groups, the rules of each, the host's groups, and the rules of each, one after
the other, and others may write in between. `decision_while_rules_change`: each rule is taken as it is at
the last of the readings that are about a group which lists it, and an allowance is that of the first of
the rules which are found so on both sides. If only user groups change meanwhile, or only host groups, or
only one rule, the decision is the one of a state that was there at some reading. This is so in particular
if there is at most one write. Two writes are enough for an allowance that no state gives
(`allowed_at_no_moment`).

Proof. Rules are never deleted, so a rule that is found for one group is found for every later one that
lists it, and the last one counts (`loadAcls_counts`). With the same groups on both sides a decision is then
a matter of what is read for each rule at two readings at most (`Found`). Where only one rule changes, the
state at the later of them gives the same decision, or the state at the earlier one if the rule is not
there yet (`found_rule`).
-/

namespace Gatehouse.Access

open Store (Operation WellKept)

/-! ### Runs that are read from time to time -/

/-- A decision while others write: reading `k` finds the store after the first `seen k` operations. -/
structure Interleaving where
  start : Store
  ops : List Operation
  seen : Nat → Nat
  seen_mono : Monotone seen

namespace Interleaving

/-- The store after the first `n` operations. -/
def state (i : Interleaving) (n : Nat) : Store :=
  (i.ops.take n).foldl Operation.tried i.start

/-- The store as a reading finds it. -/
def moment (i : Interleaving) (k : Nat) : Store :=
  i.state (i.seen k)

/-- What is read under an identifier stays the same all the time. -/
def Unchanged (i : Interleaving) (t : Table) (id : Id) : Prop :=
  ∀ n, (i.state n).get t.Entry t id = i.start.get t.Entry t id

/-- Of groups and rules, only user groups change, or only host groups, or only one rule. -/
inductive OneChanges (i : Interleaving) : Prop where
  | userGroups (hhosts : ∀ id, i.Unchanged .hostGroups id) (hrules : ∀ id, i.Unchanged .acls id)
  | hostGroups (husers : ∀ id, i.Unchanged .userGroups id) (hrules : ∀ id, i.Unchanged .acls id)
  | rule (id : Id) (husers : ∀ id, i.Unchanged .userGroups id) (hhosts : ∀ id, i.Unchanged .hostGroups id)
    (hrules : ∀ id', id' ≠ id → i.Unchanged .acls id')

end Interleaving

/-- Stores at successive moments: they are well kept, and rules that are there stay there. -/
structure Successive (moment : Nat → Store) : Prop where
  kept : ∀ k, WellKept (moment k)
  stays : ∀ {k k' : Nat} {id : Id} {a : Acl}, k ≤ k' → (moment k).get Acl .acls id = .ok (some a) →
    ∃ b, (moment k').get Acl .acls id = .ok (some b)

theorem successive_const {s : Store} (h : WellKept s) : Successive fun _ => s :=
  ⟨fun _ => h, fun _ ha => ⟨_, ha⟩⟩

theorem stays_foldl {t : Table} {id : Id} {s : Store} {a : t.Entry} (h : WellKept s) (ops : List Operation)
    (ha : s.get t.Entry t id = .ok (some a)) :
    ∃ b, (ops.foldl Operation.tried s).get t.Entry t id = .ok (some b) := by
  rw [Store.writes_foldl ops h t id, ha]
  cases Store.lastWith id (Store.journal s ops t) with
  | none => exact ⟨a, rfl⟩
  | some b => exact ⟨b, rfl⟩

theorem Interleaving.successive {i : Interleaving} (h : WellKept i.start) : Successive i.moment := by
  refine ⟨fun k => Store.wellKept_foldl _ h, fun {k k' id a} hk ha => ?_⟩
  have hsplit : i.moment k' = ((i.ops.take (i.seen k')).drop (i.seen k)).foldl Operation.tried (i.moment k) := by
    have htake : i.ops.take (i.seen k) = (i.ops.take (i.seen k')).take (i.seen k) := by
      rw [List.take_take, Nat.min_eq_left (i.seen_mono hk)]
    rw [moment, moment, state, state, htake, ← List.foldl_append, List.take_append_drop]
  rw [hsplit]
  exact stays_foldl (t := .acls) (Store.wellKept_foldl _ h) _ ha

/-! ### The reading that counts for a rule -/

/-- The last reading that is about a group which lists the rule. The groups are read one after the other
from `next` on. -/
def lastReading (id : Id) : (next : Nat) → List Group → Option Nat
  | _, [] => none
  | next, group :: more =>
    (lastReading id (next + 1) more).or (if id ∈ group.aclIds then some next else none)

theorem lastReading_bounds {id : Id} {groups : List Group} :
    ∀ {next k : Nat}, lastReading id next groups = some k → next ≤ k ∧ k < next + groups.length := by
  induction groups with
  | nil => exact fun h => by cases h
  | cons group more ih =>
    intro next k h
    rw [lastReading] at h
    rw [List.length_cons]
    rcases hlast : lastReading id (next + 1) more with _ | k'
    · rw [hlast, Option.none_or] at h
      split_ifs at h
      cases h
      omega
    · rw [hlast, Option.some_or] at h
      cases h
      have := ih hlast
      omega

theorem counts_append {xs ys : List Acl} {a : Acl} :
    Counts (xs ++ ys) a ↔ Counts ys a ∨ Counts xs a ∧ ∀ b ∈ ys, b.id ≠ a.id := by
  induction ys using List.reverseRecOn with
  | nil =>
    have hnil : ¬ Counts [] a := fun h => by cases h.mem
    simp [hnil]
  | append_singleton ys y ih =>
    rw [← List.append_assoc, counts_snoc, counts_snoc, ih, List.forall_mem_append, List.forall_mem_singleton]
    constructor
    · rintro (rfl | ⟨hys | ⟨hxs, hnone⟩, hne⟩)
      · exact .inl (.inl rfl)
      · exact .inl (.inr ⟨hys, hne⟩)
      · exact .inr ⟨hxs, hnone, hne.symm⟩
    · rintro ((rfl | ⟨hys, hne⟩) | ⟨hxs, hnone, hne⟩)
      · exact .inl rfl
      · exact .inr ⟨.inl hys, hne⟩
      · exact .inr ⟨.inr ⟨hxs, hnone⟩, hne.symm⟩

theorem acl_id_of_get {s : Store} (h : WellKept s) {id : Id} {a : Acl}
    (ha : s.get Acl .acls id = .ok (some a)) : a.id = id :=
  h.id_of_get (t := .acls) rfl ha

/-- The rules that are read for one group count if they are there. -/
theorem counts_getMany {s : Store} (h : WellKept s) {ids : List Id} {acls : List Acl}
    (hacls : s.getMany Acl .acls ids = .ok acls) (a : Acl) :
    Counts acls a ↔ a.id ∈ ids ∧ s.get Acl .acls a.id = .ok (some a) := by
  obtain ⟨found, hfound, hmem⟩ := h.getMany_mem (t := .acls) (α := Acl) rfl ids
  rw [hacls] at hfound
  cases hfound
  have hread : ∀ b, b ∈ acls ↔ b.id ∈ ids ∧ s.get Acl .acls b.id = .ok (some b) := by
    intro b
    rw [hmem]
    constructor
    · rintro ⟨id, hid, hb⟩
      have hsame : b.id = id := acl_id_of_get h hb
      rw [hsame]
      exact ⟨hid, hb⟩
    · rintro ⟨hid, hb⟩
      exact ⟨b.id, hid, hb⟩
  rw [← hread]
  refine ⟨Counts.mem, fun ha => counts_of_mem (fun b hb hid => ?_) ha⟩
  have hb' := ((hread b).mp hb).2
  rw [hid, ((hread a).mp ha).2] at hb'
  cases hb'
  rfl

variable {moment moment' : Nat → Store} {user : User} {host : Host}

/-- Of the rules that are loaded, those count that are there at the last reading about them. -/
theorem loadAcls_counts (h : Successive moment) (groups : List Group) :
    ∀ next, ∃ loaded, Store.loadAcls moment next groups = .ok (loaded, next + groups.length) ∧
      ∀ a, Counts (loaded.flatMap GroupAcls.acls) a ↔
        ∃ k, lastReading a.id next groups = some k ∧ (moment k).get Acl .acls a.id = .ok (some a) := by
  induction groups with
  | nil =>
    refine fun next => ⟨[], rfl, fun a => ⟨fun ha => (by cases ha.mem), ?_⟩⟩
    rintro ⟨k, hk, -⟩
    cases hk
  | cons group more ih =>
    intro next
    obtain ⟨rest, hrest, hcounts⟩ := ih (next + 1)
    obtain ⟨acls, hacls, -⟩ := (h.kept next).getMany_mem (t := .acls) (α := Acl) rfl group.aclIds
    refine ⟨⟨group, acls⟩ :: rest, ?_, fun a => ?_⟩
    · rw [Store.loadAcls, hacls, hrest, List.length_cons, Nat.add_assoc, Nat.add_comm 1]
      rfl
    rw [List.flatMap_cons, counts_append, hcounts, counts_getMany (h.kept next) hacls, lastReading]
    rcases hlast : lastReading a.id (next + 1) more with _ | k
    · -- No later group lists the rule.
      have hnone : ∀ b ∈ rest.flatMap GroupAcls.acls, b.id ≠ a.id := by
        intro b hb hid
        obtain ⟨c, hc, hcid⟩ := exists_counts hb
        obtain ⟨k, hk, -⟩ := (hcounts c).mp hc
        rw [hcid, hid, hlast] at hk
        cases hk
      rw [Option.none_or]
      constructor
      · rintro (⟨k, hk, -⟩ | ⟨⟨hid, ha⟩, -⟩)
        · cases hk
        · exact ⟨next, if_pos hid, ha⟩
      · rintro ⟨k, hk, ha⟩
        split_ifs at hk with hid
        cases hk
        exact .inr ⟨⟨hid, ha⟩, hnone⟩
    · rw [Option.some_or]
      constructor
      · rintro (hlater | ⟨⟨-, ha⟩, hnone⟩)
        · exact hlater
        · -- The rule has been there for this group, so it is there for the later one.
          have hle : next ≤ k := by
            have := (lastReading_bounds hlast).1
            omega
          obtain ⟨b, hb⟩ := h.stays hle ha
          have hbid : b.id = a.id := acl_id_of_get (h.kept k) hb
          have hb' := (hcounts b).mpr ⟨k, by rw [hbid, hlast], by rw [hbid, hb]⟩
          exact absurd hbid (hnone b hb'.mem)
      · exact .inl

/-! ### What a decision reads -/

/-- The groups that are read. -/
structure Reads (moment : Nat → Store) (user : User) (host : Host) (userGroups hostGroups : List Group) :
    Prop where
  users : (moment 0).getMany Group .userGroups user.groupIds = .ok userGroups
  hosts : (moment (userGroups.length + 1)).getMany Group .hostGroups host.groupIds = .ok hostGroups

/-- The rule is there at the last reading about it for a user group, and is this one at the last reading
about it for a host group. -/
def Found (moment : Nat → Store) (userGroups hostGroups : List Group) (a : Acl) : Prop :=
  (∃ k b, lastReading a.id 1 userGroups = some k ∧ (moment k).get Acl .acls a.id = .ok (some b)) ∧
    ∃ k, lastReading a.id (userGroups.length + 2) hostGroups = some k ∧
      (moment k).get Acl .acls a.id = .ok (some a)

/-- How many readings a decision makes. -/
def readings (moment : Nat → Store) (user : User) (host : Host) : Nat :=
  match Store.loadGroups moment 0 .userGroups user.groupIds with
  | .error _ => 0
  | .ok (_, next) =>
    match Store.loadGroups moment next .hostGroups host.groupIds with
    | .error _ => next
    | .ok (_, stop) => stop

theorem exists_reads (h : Successive moment) (user : User) (host : Host) :
    ∃ userGroups hostGroups, Reads moment user host userGroups hostGroups := by
  obtain ⟨userGroups, husers, -⟩ :=
    (h.kept 0).getMany_mem (t := .userGroups) (α := Group) rfl user.groupIds
  obtain ⟨hostGroups, hhosts, -⟩ :=
    (h.kept (userGroups.length + 1)).getMany_mem (t := .hostGroups) (α := Group) rfl host.groupIds
  exact ⟨userGroups, hostGroups, husers, hhosts⟩

theorem counting_iff {userGroups hostGroups : List GroupAcls} {a : Acl} :
    Counting userGroups hostGroups a ↔
      (∃ b, Counts (userGroups.flatMap GroupAcls.acls) b ∧ b.id = a.id) ∧
        Counts (hostGroups.flatMap GroupAcls.acls) a := by
  constructor
  · rintro ⟨⟨⟨b, hb, hid⟩, -⟩, ha⟩
    obtain ⟨c, hc, hcid⟩ := exists_counts (carries_iff_mem.mp hb)
    exact ⟨⟨c, hc, hcid.trans hid⟩, ha⟩
  · rintro ⟨⟨b, hb, hid⟩, ha⟩
    exact ⟨⟨⟨b, carries_iff_mem.mpr hb.mem, hid⟩, a, carries_iff_mem.mpr ha.mem, rfl⟩, ha⟩

theorem exists_loaded (h : Successive moment) {userGroups hostGroups : List Group}
    (hreads : Reads moment user host userGroups hostGroups) :
    ∃ loadedUsers loadedHosts,
      decide moment user host = (resolve loadedUsers loadedHosts).mapError .invalid ∧
      readings moment user host = userGroups.length + 2 + hostGroups.length ∧
      ∀ a, Counting loadedUsers loadedHosts a ↔ Found moment userGroups hostGroups a := by
  obtain ⟨loadedUsers, husers, hcountsUsers⟩ := loadAcls_counts h userGroups 1
  obtain ⟨loadedHosts, hhosts, hcountsHosts⟩ := loadAcls_counts h hostGroups (userGroups.length + 2)
  rw [Nat.add_comm 1] at husers
  have hloadUsers : Store.loadGroups moment 0 .userGroups user.groupIds =
      .ok (loadedUsers, userGroups.length + 1) := by
    rw [Store.loadGroups, hreads.users]
    exact husers
  have hloadHosts : Store.loadGroups moment (userGroups.length + 1) .hostGroups host.groupIds =
      .ok (loadedHosts, userGroups.length + 2 + hostGroups.length) := by
    rw [Store.loadGroups, hreads.hosts]
    exact hhosts
  refine ⟨loadedUsers, loadedHosts, ?_, ?_, fun a => ?_⟩
  · simp only [decide, hloadUsers, hloadHosts]
  · simp only [readings, hloadUsers, hloadHosts]
  · rw [counting_iff, hcountsHosts, Found]
    refine and_congr_left fun _ => ⟨?_, ?_⟩
    · rintro ⟨b, hb, hid⟩
      obtain ⟨k, hk, hget⟩ := (hcountsUsers b).mp hb
      rw [hid] at hk hget
      exact ⟨k, b, hk, hget⟩
    · rintro ⟨k, b, hk, hget⟩
      have hid : b.id = a.id := acl_id_of_get (h.kept k) hget
      exact ⟨b, (hcountsUsers b).mpr ⟨k, by rw [hid, hk], by rw [hid, hget]⟩, hid⟩

/-! ### Decisions at one moment -/

theorem found_congr {userGroups hostGroups : List Group} {a : Acl}
    (h : ∀ k, (moment k).get Acl .acls a.id = (moment' k).get Acl .acls a.id) :
    Found moment userGroups hostGroups a ↔ Found moment' userGroups hostGroups a := by
  simp only [Found, h]

/-- A reading that finds on both sides what the decision has found gives the same decision. -/
theorem decide_eq_of_found (h : Successive moment) {userGroups hostGroups : List Group}
    (hreads : Reads moment user host userGroups hostGroups) (k : Nat)
    (husers : ∀ id, (moment k).get Group .userGroups id = (moment 0).get Group .userGroups id)
    (hhosts : ∀ id, (moment k).get Group .hostGroups id =
      (moment (userGroups.length + 1)).get Group .hostGroups id)
    (hfound : ∀ a, Found moment userGroups hostGroups a ↔
      Found (fun _ => moment k) userGroups hostGroups a) :
    decide moment user host = decide (fun _ => moment k) user host := by
  have hthen : Reads (fun _ => moment k) user host userGroups hostGroups :=
    ⟨(Store.getMany_congr husers _).trans hreads.users, (Store.getMany_congr hhosts _).trans hreads.hosts⟩
  obtain ⟨us, hs, hdecide, -, hcounting⟩ := exists_loaded h hreads
  obtain ⟨us', hs', hdecide', -, hcounting'⟩ := exists_loaded (successive_const (h.kept k)) hthen
  have hsame : resolve us hs = resolve us' hs' := by
    apply resolve_congr
    intro a
    rw [hcounting, hcounting', hfound]
  rw [hdecide, hdecide', hsame]

/-- Where only one rule changes, one of the readings finds on both sides what the decision has found. -/
theorem found_rule (h : Successive moment) (userGroups hostGroups : List Group) (id : Id)
    (hothers : ∀ id' k k', id' ≠ id →
      (moment k).get Acl .acls id' = (moment k').get Acl .acls id') :
    ∃ k < userGroups.length + 2 + hostGroups.length, ∀ a,
      Found moment userGroups hostGroups a ↔ Found (fun _ => moment k) userGroups hostGroups a := by
  -- For the other rules every reading will do.
  have hsuffices : ∀ k, (∀ a, a.id = id → (Found moment userGroups hostGroups a ↔
      Found (fun _ => moment k) userGroups hostGroups a)) → ∀ a,
      Found moment userGroups hostGroups a ↔ Found (fun _ => moment k) userGroups hostGroups a := by
    intro k hrule a
    by_cases hid : a.id = id
    · exact hrule a hid
    · exact found_congr fun k' => hothers a.id k' k hid
  rcases huser : lastReading id 1 userGroups with _ | k
  · refine ⟨0, by omega, hsuffices 0 ?_⟩
    rintro a rfl
    simp [Found, huser]
  rcases hhost : lastReading id (userGroups.length + 2) hostGroups with _ | k'
  · refine ⟨0, by omega, hsuffices 0 ?_⟩
    rintro a rfl
    simp [Found, hhost]
  have hk := lastReading_bounds huser
  have hk' := lastReading_bounds hhost
  rcases (h.kept k).get_cases (t := .acls) (α := Acl) rfl id with hnone | ⟨b, hb, -⟩
  · refine ⟨k, by omega, hsuffices k ?_⟩
    rintro a rfl
    simp [Found, huser, hnone]
  · refine ⟨k', by omega, hsuffices k' ?_⟩
    rintro a rfl
    constructor
    · rintro ⟨-, l, hl, ha⟩
      rw [hhost] at hl
      cases hl
      exact ⟨⟨k, a, huser, ha⟩, k', hhost, ha⟩
    · rintro ⟨-, l, hl, ha⟩
      exact ⟨⟨k, b, huser, hb⟩, k', hhost, ha⟩

namespace Interleaving

variable {i : Interleaving}

theorem Unchanged.get_eq {t : Table} {id : Id} (h : i.Unchanged t id) (k k' : Nat) :
    (i.moment k).get t.Entry t id = (i.moment k').get t.Entry t id :=
  (h _).trans (h _).symm

theorem OneChanges.decide_eq (h : i.OneChanges) (hstart : WellKept i.start) (user : User) (host : Host) :
    ∃ k < readings i.moment user host,
      decide i.moment user host = decide (fun _ => i.moment k) user host := by
  have hsucc := i.successive hstart
  obtain ⟨us, hs, hreads⟩ := exists_reads hsucc user host
  obtain ⟨-, -, -, hcount, -⟩ := exists_loaded hsucc hreads
  rw [hcount]
  cases h with
  | userGroups hhosts hrules =>
    refine ⟨0, by omega, decide_eq_of_found hsucc hreads 0 (fun _ => rfl) ?_ ?_⟩
    · exact fun id => (hhosts id).get_eq _ _
    · exact fun a => found_congr fun k => (hrules a.id).get_eq _ _
  | hostGroups husers hrules =>
    refine ⟨us.length + 1, by omega, decide_eq_of_found hsucc hreads _ ?_ (fun _ => rfl) ?_⟩
    · exact fun id => (husers id).get_eq _ _
    · exact fun a => found_congr fun k => (hrules a.id).get_eq _ _
  | rule id husers hhosts hrules =>
    obtain ⟨k, hk, hfound⟩ := found_rule hsucc us hs id fun id' k k' hne => (hrules id' hne).get_eq k k'
    refine ⟨k, hk, decide_eq_of_found hsucc hreads k ?_ ?_ hfound⟩
    · exact fun id => (husers id).get_eq _ _
    · exact fun id => (hhosts id).get_eq _ _

/-! ### A single write -/

theorem unchanged_of_single {op : Operation} (hstart : WellKept i.start) (hops : i.ops = [op]) {t : Table}
    {id : Id} (hwritten : Store.lastWith id (op.records i.start t) = none) : i.Unchanged t id := by
  have hwrites : Store.lastWith id (op.writes i.start t) = none := by
    unfold Operation.writes
    cases op.run i.start with
    | error e => rfl
    | ok s => exact hwritten
  intro n
  rw [state, hops]
  cases n with
  | zero => rfl
  | succ n =>
    rw [List.take_succ_cons, List.take_nil, List.foldl_cons, List.foldl_nil,
      Store.writes_tried hstart op t id, hwrites]
    rfl

theorem oneChanges_of_single (hstart : WellKept i.start) (h : i.ops.length ≤ 1) : i.OneChanges := by
  rcases hops : i.ops with _ | ⟨op, more⟩
  · have hsame : ∀ t id, i.Unchanged t id := by
      intro t id n
      rw [state, hops, List.take_nil, List.foldl_nil]
    exact .userGroups (hsame .hostGroups) (hsame .acls)
  rw [hops, List.length_cons] at h
  obtain rfl : more = [] := List.length_eq_zero_iff.mp (by omega)
  have hsame : ∀ t, op.records i.start t = [] → ∀ id, i.Unchanged t id := by
    intro t hnone id
    refine unchanged_of_single hstart hops ?_
    rw [hnone]
    rfl
  cases op with
  | putHostGroup g => exact .hostGroups (hsame _ rfl) (hsame _ rfl)
  | putAcl a =>
    refine .rule (Store.Identified.id (i.start.named .acls a)) (hsame _ rfl) (hsame _ rfl) fun id' hne => ?_
    refine unchanged_of_single hstart hops ?_
    rw [Operation.records, Store.Journal.only, Function.update_self, Store.lastWith_singleton,
      if_neg hne.symm]
  | redeemInvite now token key =>
    have hnone : ∀ t, t = .hostGroups ∨ t = .acls →
        (Operation.redeemInvite now token key).records i.start t = [] := by
      rintro t (rfl | rfl) <;> rw [Operation.records] <;> cases i.start.holder? now token <;> rfl
    exact .userGroups (hsame _ (hnone _ (.inl rfl))) (hsame _ (hnone _ (.inr rfl)))
  | _ => exact .userGroups (hsame _ rfl) (hsame _ rfl)

end Interleaving

/-- If a decision allows while others write, then the first of the rules that it has found on both sides
says so. If only one thing changes, or there is only one write, some reading finds a state that gives the
same decision. -/
theorem decision_while_rules_change (i : Interleaving) (hstart : WellKept i.start) (user : User)
    (host : Host) :
    (decide i.moment user host = .ok .allow → ∃ userGroups hostGroups a,
      Reads i.moment user host userGroups hostGroups ∧
        First (Found i.moment userGroups hostGroups) a ∧ a.action = "allow") ∧
    (i.OneChanges ∨ i.ops.length ≤ 1 → ∃ k < readings i.moment user host,
      decide i.moment user host = decide (fun _ => i.moment k) user host) := by
  refine ⟨fun hallow => ?_, ?_⟩
  · obtain ⟨us, hs, hreads⟩ := exists_reads (i.successive hstart) user host
    obtain ⟨loadedUsers, loadedHosts, hdecide, -, hcounting⟩ := exists_loaded (i.successive hstart) hreads
    have hsame : Counting loadedUsers loadedHosts = Found i.moment us hs :=
      funext fun a => propext (hcounting a)
    have hresolve : resolve loadedUsers loadedHosts = .ok .allow := by
      rw [hdecide] at hallow
      rcases hresult : resolve loadedUsers loadedHosts with e | action
      · rw [hresult] at hallow
        cases hallow
      · rw [hresult] at hallow
        cases hallow
        rfl
    have houtcome := resolve_outcome loadedUsers loadedHosts
    rw [hresolve, hsame] at houtcome
    cases houtcome with
    | allow hfirst haction => exact ⟨us, hs, _, hreads, hfirst, haction⟩
  · rintro (hone | hsingle)
    · exact hone.decide_eq hstart user host
    · exact (Interleaving.oneChanges_of_single hstart hsingle).decide_eq hstart user host

/-! ### Two runs -/

/-- A user and a host of one group each; the user's group alone lists the rule that allows. -/
def listedOnce : Store :=
  [Operation.putAcl { id := 1, action := "allow", weight := 1 },
    .putUserGroup { id := 1, name := "ops", aclIds := [1] },
    .putHostGroup { id := 1, name := "racks" }].foldl Operation.tried .empty

/-- A decision with these operations done between the user's groups and the host's. -/
def meanwhile (ops : List Operation) : Interleaving where
  start := listedOnce
  ops := ops
  seen k := if k ≤ 1 then 0 else ops.length
  seen_mono := by
    intro k k' hle
    dsimp only
    split_ifs <;> omega

theorem wellKept_listedOnce : WellKept listedOnce :=
  Store.wellKept_foldl _ (Store.wellKept_of_reachable .empty)

/-- The host's group gets the rule in between: the decision is that of the store after this. -/
theorem decision_while_rules_change_host_group :
    let i := meanwhile [.putHostGroup { id := 1, name := "racks", aclIds := [1] }]
    let ann : User := { id := 1, name := "ann", email := "ann@x", groupIds := [1] }
    let web : Host := { id := 1, name := "web", addr := "10.0.0.1", user := "root", groupIds := [1] }
    WellKept i.start ∧ i.ops.length ≤ 1 ∧ readings i.moment ann web = 4 ∧
      decide i.moment ann web = .ok .allow ∧
      (∃ userGroups hostGroups a, Reads i.moment ann web userGroups hostGroups ∧
        First (Found i.moment userGroups hostGroups) a ∧ a.action = "allow") ∧
      ∃ k < 4, decide (fun _ => i.moment k) ann web = .ok .allow := by
  intro i ann web
  have hallow : decide i.moment ann web = .ok .allow := by decide +kernel
  have hreadings : readings i.moment ann web = 4 := by decide +kernel
  obtain ⟨hrule, hmoment⟩ := decision_while_rules_change i wellKept_listedOnce ann web
  obtain ⟨k, hk, heq⟩ := hmoment (.inr (Nat.le_refl _))
  rw [hreadings] at hk
  exact ⟨wellKept_listedOnce, Nat.le_refl _, hreadings, hallow, hrule hallow, k, hk, heq.symm.trans hallow⟩

/-- The user's group loses the rule, and then the host's group gets it. No state allows, but a decision
that has read the user's groups before and reads the host's groups after does. -/
theorem allowed_at_no_moment :
    let i := meanwhile [.putUserGroup { id := 1, name := "ops" },
      .putHostGroup { id := 1, name := "racks", aclIds := [1] }]
    let ann : User := { id := 1, name := "ann", email := "ann@x", groupIds := [1] }
    let web : Host := { id := 1, name := "web", addr := "10.0.0.1", user := "root", groupIds := [1] }
    WellKept i.start ∧ decide i.moment ann web = .ok .allow ∧
      ∀ n, decide (fun _ => i.state n) ann web = .ok .deny := by
  intro i ann web
  refine ⟨wellKept_listedOnce, by decide +kernel, fun n => ?_⟩
  match n with
  | 0 | 1 => decide +kernel
  | n + 2 =>
    have hall : i.state (n + 2) = i.state 2 := by
      rw [Interleaving.state, List.take_of_length_le (Nat.le_add_left 2 n)]
      rfl
    rw [hall]
    decide +kernel

end Gatehouse.Access
