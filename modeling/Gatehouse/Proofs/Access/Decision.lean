import Gatehouse.Access.Check
import Gatehouse.Proofs.Access.Resolve
import Gatehouse.Proofs.Store.Reachable

/-!
# The decision, from what the store holds

`check_verdict`: without a hook, the decision for a user and a host is a matter of the set of rules that
exist and that an existing group on each side lists. If there are none it is a denial; otherwise it is
what the rule of the least weight says, and of the least identifier among those of this weight. So it
does not matter in which order and how often groups and rules are named, which group of a side lists a
rule, what is named but does not exist, and which side is which.

Proof. In a store that has come about by its own operations, reading never fails and identifiers are
those of the rows, so the two lists of rules that are loaded hold just what the two sides list
(`loadGroups_mem`), and rules of one identifier are the same rule. Then `resolve_cases` applies.
-/

namespace Gatehouse.Access

open Store (Reachable WellKept)

variable {s : Store}

/-- One of the groups exists in the table and lists the rule. -/
def Lists (s : Store) (t : Table) (groupIds : List Id) (id : Id) : Prop :=
  ∃ groupId ∈ groupIds, ∃ group, s.get Group t groupId = .ok (some group) ∧ id ∈ group.aclIds

/-- The rule exists, and both sides list it. -/
structure Shared (s : Store) (user : User) (host : Host) (id : Id) (a : Acl) : Prop where
  found : s.get Acl .acls id = .ok (some a)
  user : Lists s .userGroups user.groupIds id
  host : Lists s .hostGroups host.groupIds id

/-- The rule is shared, and comes first of all that are: by weight, then by identifier. -/
structure Decides (s : Store) (user : User) (host : Host) (id : Id) (a : Acl) : Prop where
  shared : Shared s user host id a
  first : ∀ id' a', Shared s user host id' a' →
    a.weight < a'.weight ∨ a.weight = a'.weight ∧ id ≤ id'

/-- What the rules come to. -/
inductive Verdict (s : Store) (user : User) (host : Host) : Except AclError Action → Prop where
  | unshared : (∀ id a, ¬ Shared s user host id a) → Verdict s user host (.ok .deny)
  | allow {id a} : Decides s user host id a → a.action = "allow" → Verdict s user host (.ok .allow)
  | deny {id a} : Decides s user host id a → a.action = "deny" → Verdict s user host (.ok .deny)
  | invalid {id a} : Decides s user host id a → a.action ≠ "allow" → a.action ≠ "deny" →
      Verdict s user host (.error (.invalid ⟨a.action⟩))

/-! ### What is loaded -/

theorem loadAcls_mem (h : WellKept s) (groups : List Group) (next : Nat) :
    ∃ loaded next', Store.loadAcls (fun _ => s) next groups = .ok (loaded, next') ∧
      ∀ a, a ∈ loaded.flatMap GroupAcls.acls ↔
        ∃ group ∈ groups, ∃ id ∈ group.aclIds, s.get Acl .acls id = .ok (some a) := by
  induction groups generalizing next with
  | nil => exact ⟨[], next, rfl, by simp⟩
  | cons group groups ih =>
    have htable : Store.HoldsIn .acls = Store.Holds Acl := rfl
    obtain ⟨acls, hacls, hmem⟩ := h.getMany_mem htable group.aclIds
    obtain ⟨loaded, next', hloaded, hrest⟩ := ih (next + 1)
    refine ⟨⟨group, acls⟩ :: loaded, next', ?_, fun a => ?_⟩
    · rw [Store.loadAcls, hacls]
      change (Store.loadAcls (fun _ => s) (next + 1) groups >>= _) = _
      rw [hloaded]
      rfl
    · rw [List.flatMap_cons, List.mem_append, hmem, hrest, List.exists_mem_cons_iff]

/-- The rules that are loaded for a side are those that it lists. -/
theorem loadGroups_mem (h : WellKept s) {t : Table} (ht : Store.HoldsIn t = Store.Holds Group)
    (groupIds : List Id) (next : Nat) :
    ∃ loaded next', Store.loadGroups (fun _ => s) next t groupIds = .ok (loaded, next') ∧
      ∀ a, a ∈ loaded.flatMap GroupAcls.acls ↔
        ∃ id, s.get Acl .acls id = .ok (some a) ∧ Lists s t groupIds id := by
  obtain ⟨groups, hgroups, hmem⟩ := h.getMany_mem ht groupIds
  obtain ⟨loaded, next', hloaded, hrules⟩ := loadAcls_mem h groups (next + 1)
  refine ⟨loaded, next', ?_, fun a => ?_⟩
  · rw [Store.loadGroups, hgroups]
    exact hloaded
  · rw [hrules]
    constructor
    · rintro ⟨group, hgroup, id, hid, hget⟩
      obtain ⟨groupId, hgroupId, hget'⟩ := (hmem group).mp hgroup
      exact ⟨id, hget, groupId, hgroupId, group, hget', hid⟩
    · rintro ⟨id, hget, groupId, hgroupId, group, hget', hid⟩
      exact ⟨group, (hmem group).mpr ⟨groupId, hgroupId, hget'⟩, id, hid, hget⟩

/-! ### What is decided -/

theorem decide_verdict (h : WellKept s) (user : User) (host : Host) :
    Verdict s user host (decide (fun _ => s) user host) := by
  obtain ⟨userGroups, next, huser, hmemUser⟩ :=
    loadGroups_mem (t := .userGroups) h rfl user.groupIds 0
  obtain ⟨hostGroups, next', hhost, hmemHost⟩ :=
    loadGroups_mem (t := .hostGroups) h rfl host.groupIds next
  have hid : ∀ {id} {a : Acl}, s.get Acl .acls id = .ok (some a) → a.id = id :=
    fun hget => h.id_of_get rfl hget
  have hstored : ∀ a ∈ userGroups.flatMap GroupAcls.acls ++ hostGroups.flatMap GroupAcls.acls,
      s.get Acl .acls a.id = .ok (some a) := by
    intro a ha
    rcases List.mem_append.mp ha with ha | ha
    · obtain ⟨id, hget, -⟩ := (hmemUser a).mp ha
      rw [hid hget, hget]
    · obtain ⟨id, hget, -⟩ := (hmemHost a).mp ha
      rw [hid hget, hget]
  have hmem : ∀ a, a ∈ shared (userGroups.flatMap GroupAcls.acls)
      (hostGroups.flatMap GroupAcls.acls) ↔ Shared s user host a.id a := by
    intro a
    rw [mem_shared_of_consistent, hmemUser, hmemHost]
    · constructor
      · rintro ⟨⟨id, hget, hlists⟩, ⟨id', hget', hlists'⟩⟩
        obtain rfl := hid hget
        obtain rfl := hid hget'
        exact ⟨hget, hlists, hlists'⟩
      · intro hshared
        exact ⟨⟨a.id, hshared.found, hshared.user⟩, ⟨a.id, hshared.found, hshared.host⟩⟩
    · intro a ha b hb hsame
      have hget := hstored a ha
      rw [hsame, hstored b hb] at hget
      cases hget
      rfl
  have hdecide : decide (fun _ => s) user host =
      (resolve userGroups hostGroups).mapError .invalid := by
    rw [decide, huser]
    dsimp only
    rw [hhost]
  rw [hdecide]
  rcases resolve_cases userGroups hostGroups with ⟨hnone, hdeny⟩ | ⟨a, ha, hfirst, hresolve⟩
  · rw [hdeny]
    refine .unshared fun id a hshared => ?_
    obtain rfl := hid hshared.found
    have ha := (hmem a).mpr hshared
    rw [hnone] at ha
    cases ha
  · have hdecides : Decides s user host a.id a := by
      refine ⟨(hmem a).mp ha, fun id' a' hshared => ?_⟩
      obtain rfl := hid hshared.found
      exact hfirst a' ((hmem a').mpr hshared)
    rw [hresolve, Action.parse]
    split_ifs with hallow hdeny
    · exact .allow hdecides hallow
    · exact .deny hdecides hdeny
    · exact .invalid hdecides hallow hdeny

/-- Of the shared rules, only one comes first. -/
theorem Decides.eq {user : User} {host : Host} {id id' : Id} {a a' : Acl}
    (h : Decides s user host id a) (h' : Decides s user host id' a') : a = a' := by
  have hid : id = id' := by
    rcases h.first id' a' h'.shared with hlt | ⟨hweight, hle⟩
    · rcases h'.first id a h.shared with hlt' | ⟨hweight', -⟩
      · exact absurd (UInt32.lt_trans hlt hlt') (UInt32.lt_irrefl _)
      · rw [hweight'] at hlt
        exact absurd hlt (UInt32.lt_irrefl _)
    · rcases h'.first id a h.shared with hlt' | ⟨-, hle'⟩
      · rw [hweight] at hlt'
        exact absurd hlt' (UInt32.lt_irrefl _)
      · exact UInt64.le_antisymm hle hle'
  have hfound := h.shared.found
  rw [hid, h'.shared.found] at hfound
  cases hfound
  rfl

theorem Verdict.eq {user : User} {host : Host} {result result' : Except AclError Action}
    (h : Verdict s user host result) (h' : Verdict s user host result') : result = result' := by
  cases h with
  | unshared hnone =>
    cases h' with
    | unshared => rfl
    | allow hdecides | deny hdecides | invalid hdecides => exact absurd hdecides.shared (hnone _ _)
  | allow hdecides hallow =>
    cases h' with
    | unshared hnone => exact absurd hdecides.shared (hnone _ _)
    | allow => rfl
    | deny hdecides' hdeny =>
      rw [hdecides.eq hdecides', hdeny] at hallow
      exact absurd hallow (by decide)
    | invalid hdecides' hnot => exact absurd (hdecides.eq hdecides' ▸ hallow) hnot
  | deny hdecides hdeny =>
    cases h' with
    | unshared => rfl
    | allow hdecides' hallow =>
      rw [hdecides.eq hdecides', hallow] at hdeny
      exact absurd hdeny (by decide)
    | deny => rfl
    | invalid hdecides' _ hnot => exact absurd (hdecides.eq hdecides' ▸ hdeny) hnot
  | invalid hdecides hallow hdeny =>
    cases h' with
    | unshared hnone => exact absurd hdecides.shared (hnone _ _)
    | allow hdecides' hallow' => exact absurd (hdecides'.eq hdecides ▸ hallow') hallow
    | deny hdecides' hdeny' => exact absurd (hdecides'.eq hdecides ▸ hdeny') hdeny
    | invalid hdecides' => rw [hdecides.eq hdecides']

/-- A verdict depends on the shared rules alone. -/
theorem Verdict.congr {s' : Store} {user user' : User} {host host' : Host}
    (hshared : ∀ id a, Shared s user host id a ↔ Shared s' user' host' id a)
    {result : Except AclError Action} (h : Verdict s user host result) :
    Verdict s' user' host' result := by
  have hdecides : ∀ {id a}, Decides s user host id a → Decides s' user' host' id a :=
    fun hdecides => ⟨(hshared _ _).mp hdecides.shared,
      fun id' a' h' => hdecides.first id' a' ((hshared id' a').mpr h')⟩
  cases h with
  | unshared hnone => exact .unshared fun id a h' => hnone id a ((hshared id a).mpr h')
  | allow hfirst hallow => exact .allow (hdecides hfirst) hallow
  | deny hfirst hdeny => exact .deny (hdecides hfirst) hdeny
  | invalid hfirst hallow hdeny => exact .invalid (hdecides hfirst) hallow hdeny

/-! ### What a check comes to -/

theorem check_run_none (s : Store) (user : User) (host : Host) (calls : List HookCall) :
    (check s none user host).run calls = (decide (fun _ => s) user host, calls) := by
  unfold check
  rcases decide (fun _ => s) user host with e | action
  · rfl
  · rfl

/-- The two sides list the same rules, of those that exist. -/
def Alike (s : Store) (t : Table) (groupIds : List Id) (s' : Store) (t' : Table)
    (groupIds' : List Id) : Prop :=
  ∀ id a, s.get Acl .acls id = .ok (some a) → (Lists s t groupIds id ↔ Lists s' t' groupIds' id)

theorem alike_of_same_groups {t : Table} {groupIds groupIds' : List Id}
    (h : ∀ id group, s.get Group t id = .ok (some group) → (id ∈ groupIds ↔ id ∈ groupIds')) :
    Alike s t groupIds s t groupIds' := by
  intro id a _
  constructor
  · rintro ⟨groupId, hgroupId, group, hget, hid⟩
    exact ⟨groupId, (h groupId group hget).mp hgroupId, group, hget, hid⟩
  · rintro ⟨groupId, hgroupId, group, hget, hid⟩
    exact ⟨groupId, (h groupId group hget).mpr hgroupId, group, hget, hid⟩

section

variable {s' : Store} {user user' : User} {host host' : Host}

theorem shared_congr (hrules : ∀ id, s'.get Acl .acls id = s.get Acl .acls id)
    (huser : Alike s .userGroups user.groupIds s' .userGroups user'.groupIds)
    (hhost : Alike s .hostGroups host.groupIds s' .hostGroups host'.groupIds) (id : Id) (a : Acl) :
    Shared s user host id a ↔ Shared s' user' host' id a := by
  constructor
  · rintro ⟨hfound, hu, hh⟩
    exact ⟨(hrules id).trans hfound, (huser id a hfound).mp hu, (hhost id a hfound).mp hh⟩
  · rintro ⟨hfound, hu, hh⟩
    rw [hrules] at hfound
    exact ⟨hfound, (huser id a hfound).mpr hu, (hhost id a hfound).mpr hh⟩

theorem shared_exchange (hrules : ∀ id, s'.get Acl .acls id = s.get Acl .acls id)
    (huser : Alike s .userGroups user.groupIds s' .hostGroups host'.groupIds)
    (hhost : Alike s .hostGroups host.groupIds s' .userGroups user'.groupIds) (id : Id) (a : Acl) :
    Shared s user host id a ↔ Shared s' user' host' id a := by
  constructor
  · rintro ⟨hfound, hu, hh⟩
    exact ⟨(hrules id).trans hfound, (hhost id a hfound).mp hh, (huser id a hfound).mp hu⟩
  · rintro ⟨hfound, hu, hh⟩
    rw [hrules] at hfound
    exact ⟨hfound, (huser id a hfound).mpr hh, (hhost id a hfound).mpr hu⟩

theorem check_congr (h : Reachable s) (h' : Reachable s')
    (hshared : ∀ id a, Shared s user host id a ↔ Shared s' user' host' id a)
    (calls : List HookCall) :
    (check s' none user' host').run calls = (check s none user host).run calls := by
  have hverdict := decide_verdict (Store.wellKept_of_reachable h) user host
  have hverdict' := decide_verdict (Store.wellKept_of_reachable h') user' host'
  rw [check_run_none, check_run_none, hverdict'.eq (hverdict.congr hshared)]

end

/-- Without a hook, the decision is that of the first of the shared rules. It stays what it is when a
user and a host name the same existing groups in another way, when the existing rules of a side are
listed by others of its groups or in another way, and when the two sides are exchanged. -/
theorem check_verdict (h : Reachable s) (user : User) (host : Host) (calls : List HookCall) :
    (∀ result, (check s none user host).run calls = (result, calls) ↔
      Verdict s user host result) ∧
    (∀ user' host',
      (∀ id group, s.get Group .userGroups id = .ok (some group) →
        (id ∈ user.groupIds ↔ id ∈ user'.groupIds)) →
      (∀ id group, s.get Group .hostGroups id = .ok (some group) →
        (id ∈ host.groupIds ↔ id ∈ host'.groupIds)) →
      (check s none user' host').run calls = (check s none user host).run calls) ∧
    (∀ s' user' host', Reachable s' → (∀ id, s'.get Acl .acls id = s.get Acl .acls id) →
      Alike s .userGroups user.groupIds s' .userGroups user'.groupIds →
      Alike s .hostGroups host.groupIds s' .hostGroups host'.groupIds →
      (check s' none user' host').run calls = (check s none user host).run calls) ∧
    (∀ s' user' host', Reachable s' → (∀ id, s'.get Acl .acls id = s.get Acl .acls id) →
      Alike s .userGroups user.groupIds s' .hostGroups host'.groupIds →
      Alike s .hostGroups host.groupIds s' .userGroups user'.groupIds →
      (check s' none user' host').run calls = (check s none user host).run calls) := by
  have hverdict := decide_verdict (Store.wellKept_of_reachable h) user host
  refine ⟨fun result => ?_, fun user' host' huser hhost => ?_,
    fun s' user' host' h' hrules huser hhost => ?_, fun s' user' host' h' hrules huser hhost => ?_⟩
  · rw [check_run_none]
    constructor
    · intro hrun
      cases hrun
      exact hverdict
    · intro hresult
      rw [hverdict.eq hresult]
  · exact check_congr h h (shared_congr (fun _ => rfl) (alike_of_same_groups huser)
      (alike_of_same_groups hhost)) calls
  · exact check_congr h h' (shared_congr hrules huser hhost) calls
  · exact check_congr h h' (shared_exchange hrules huser hhost) calls

/-- A store in which the user group 1 and the host group 1 list the rule 7, which allows. -/
theorem check_verdict_allow :
    let rule : Acl := { id := 7, action := "allow", weight := 1 }
    let group : Group := { id := 1, name := "all", aclIds := [7] }
    let user : User := { id := 1, name := "ada", email := "", groupIds := [1] }
    let host : Host := { id := 1, name := "web", addr := "", user := "", groupIds := [1] }
    ∃ s, Reachable s ∧ s.get Acl .acls 7 = .ok (some rule) ∧
      s.get Group .userGroups 1 = .ok (some group) ∧ s.get Group .hostGroups 1 = .ok (some group) ∧
      (check s none user host).run [] = (.ok .allow, []) := by
  intro rule group user host
  have hrule : (MessagePack.encode rule).length ≤ Store.valueLimit := by decide
  have hgroup : (MessagePack.encode group).length ≤ Store.valueLimit := by decide
  let s₁ := Store.empty.putBytes .acls 7 (MessagePack.encode rule)
  let s₂ := s₁.putBytes .userGroups 1 (MessagePack.encode group)
  let s₃ := s₂.putBytes .hostGroups 1 (MessagePack.encode group)
  have hreach : Reachable s₃ := by
    refine .step (s := s₂) (.putHostGroup group) ?_ ?_
    · refine .step (s := s₁) (.putUserGroup group) ?_ ?_
      · refine .step (.putAcl rule) .empty ?_
        rw [Store.Operation.run, Store.put_eq_ok (by decide) hrule]
        rfl
      · rw [Store.Operation.run, Store.put_eq_ok (by decide) hgroup]
        rfl
    · rw [Store.Operation.run, Store.put_eq_ok (by decide) hgroup]
      rfl
  have hfound : s₃.get Acl .acls 7 = .ok (some rule) := by
    rw [Store.get_putBytes, if_neg (by decide), Store.get_putBytes, if_neg (by decide),
      Store.get_putBytes, if_pos ⟨rfl, rfl⟩, Store.decode_encode rule hrule]
    rfl
  have huser : s₃.get Group .userGroups 1 = .ok (some group) := by
    rw [Store.get_putBytes, if_neg (by decide), Store.get_putBytes, if_pos ⟨rfl, rfl⟩,
      Store.decode_encode group hgroup]
    rfl
  have hhost : s₃.get Group .hostGroups 1 = .ok (some group) := by
    rw [Store.get_putBytes, if_pos ⟨rfl, rfl⟩, Store.decode_encode group hgroup]
    rfl
  have hshared : Shared s₃ user host 7 rule :=
    ⟨hfound, ⟨1, List.mem_singleton_self 1, group, huser, List.mem_singleton_self 7⟩,
      ⟨1, List.mem_singleton_self 1, group, hhost, List.mem_singleton_self 7⟩⟩
  refine ⟨s₃, hreach, hfound, huser, hhost, ?_⟩
  refine ((check_verdict hreach user host []).1 _).mpr (.allow ⟨hshared, fun id a h => ?_⟩ rfl)
  obtain ⟨groupId, hgroupId, group', hget, hid⟩ := h.user
  rw [List.mem_singleton.mp hgroupId, huser] at hget
  cases hget
  obtain rfl := List.mem_singleton.mp hid
  have hsame := h.found
  rw [hfound] at hsame
  cases hsame
  exact .inr ⟨rfl, UInt64.le_refl _⟩

end Gatehouse.Access
