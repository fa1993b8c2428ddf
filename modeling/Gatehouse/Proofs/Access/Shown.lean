import Gatehouse.Access.Check
import Gatehouse.Proofs.Access.Resolve
import Gatehouse.Proofs.Json.Tree
import Gatehouse.Proofs.Store.Matched

/-!
# What a hook is shown

`hookCall_eq_iff`: the documents that a hook is given are the same just if all that is shown of the user and
of the host is, as each of them can be read back (`parseTree_hookUser`, `parseTree_hookHost`). `check_alike`:
where all that is shown is the same, and all that counts of groups and rules, a check is the same, with the
same call of the hook.

Proof. Both documents are the written forms of records, and `Json.parseTree_render` says what these read back
as. The rules decide by the identifiers, actions and weights of the rules that are listed (`resolve_bare`).
-/

namespace Gatehouse

/-- Two values look the same where this is all that is seen of them. -/
def SeenAlike {α β : Type} (shown : α → β) (a a' : α) : Prop :=
  shown a' = shown a

/-! ### The arguments of a call -/

namespace Access

open Json (Tree parseTree render)

/-- The members of a user that a hook is shown. -/
def userTree (user : User) : Tree :=
  .object [
    ("id", .number (some user.id.toNat)),
    ("name", .text user.name),
    ("email", .text user.email),
    ("roles", .array (user.roles.map .text)),
    ("group_ids", .array (user.groupIds.map fun id => .number (some id.toNat)))]

/-- The members of a host that a hook is shown. -/
def hostTree (host : Host) : Tree :=
  .object [
    ("id", .number (some host.id.toNat)),
    ("name", .text host.name),
    ("addr", .text host.addr),
    ("user", .text host.user),
    ("hop_id", host.hopId.elim .null fun id => .number (some id.toNat)),
    ("group_ids", .array (host.groupIds.map fun id => .number (some id.toNat)))]

theorem parseTree_hookUser (user : User) : parseTree (render (HookUser.of user)) = .ok (userTree user) :=
  (Json.parseTree_render (HookUser.of user)).trans rfl

theorem parseTree_hookHost (host : Host) : parseTree (render (HookHost.of host)) = .ok (hostTree host) := by
  refine (Json.parseTree_render (HookHost.of host)).trans (congrArg Except.ok ?_)
  obtain ⟨_, _, _, _, _, _, hopId⟩ := host
  cases hopId <;> rfl

theorem number_injective : Function.Injective fun id : Id => Tree.number (some id.toNat) := by
  intro id id' h
  exact UInt64.toNat_inj.mp (Option.some.inj (Tree.number.inj h))

theorem text_injective : Function.Injective Tree.text := fun _ _ => Tree.text.inj

/-- The user's document tells all that is shown of the user. -/
theorem hookUser_of_render {user user' : User} (h : render (HookUser.of user') = render (HookUser.of user)) :
    HookUser.of user' = HookUser.of user := by
  have htree : userTree user' = userTree user := by
    have hparse := parseTree_hookUser user'
    rw [h, parseTree_hookUser] at hparse
    exact (Except.ok.inj hparse).symm
  simp only [userTree, Tree.object.injEq, List.cons.injEq, Prod.mk.injEq, Tree.array.injEq, Tree.text.injEq,
    number_injective.eq_iff, (List.map_injective_iff.mpr number_injective).eq_iff,
    (List.map_injective_iff.mpr text_injective).eq_iff, true_and, and_true] at htree
  obtain ⟨hid, hname, hemail, hroles, hgroups⟩ := htree
  simp only [HookUser.of, hid, hname, hemail, hroles, hgroups]

/-- The host's document tells all that is shown of the host. -/
theorem hookHost_of_render {host host' : Host} (h : render (HookHost.of host') = render (HookHost.of host)) :
    HookHost.of host' = HookHost.of host := by
  have htree : hostTree host' = hostTree host := by
    have hparse := parseTree_hookHost host'
    rw [h, parseTree_hookHost] at hparse
    exact (Except.ok.inj hparse).symm
  simp only [hostTree, Tree.object.injEq, List.cons.injEq, Prod.mk.injEq, Tree.array.injEq, Tree.text.injEq,
    number_injective.eq_iff, (List.map_injective_iff.mpr number_injective).eq_iff, true_and,
    and_true] at htree
  obtain ⟨hid, hname, haddr, huser, hhop, hgroups⟩ := htree
  have hhop : host'.hopId = host.hopId := by
    generalize host.hopId = hop at hhop ⊢
    generalize host'.hopId = hop' at hhop ⊢
    rcases hop with _ | id <;> rcases hop' with _ | id'
    · rfl
    · exact absurd hhop (by simp)
    · exact absurd hhop (by simp)
    · exact congrArg some (number_injective hhop)
  simp only [HookHost.of, hid, hname, haddr, huser, hhop, hgroups]

/-- Calls are the same just if the action is, and all that is shown. -/
theorem hookCall_eq_iff {action action' : Action} {user user' : User} {host host' : Host} :
    HookCall.of action' user' host' = HookCall.of action user host ↔
      action' = action ∧ SeenAlike HookUser.of user user' ∧ SeenAlike HookHost.of host host' := by
  constructor
  · intro h
    obtain ⟨hword, huser, hhost⟩ := (HookCall.mk.injEq ..).mp h
    refine ⟨?_, hookUser_of_render huser, hookHost_of_render hhost⟩
    cases action <;> cases action' <;> first | rfl | exact absurd hword (by decide)
  · rintro ⟨rfl, huser, hhost⟩
    rw [HookCall.of, HookCall.of, huser, hhost]

/-! ### Rules that look alike -/

/-- What of a rule counts for a decision. -/
def bare (rule : Acl) : Acl :=
  { id := rule.id, action := rule.action, weight := rule.weight }

theorem insert_bare (acls : List Acl) (acl : Acl) :
    lastById.insert (acls.map bare) (bare acl) = (lastById.insert acls acl).map bare := by
  induction acls with
  | nil => rfl
  | cons x xs ih =>
    rw [List.map_cons, lastById.insert, lastById.insert, ih]
    simp only [apply_ite (List.map bare), List.map_cons]
    rfl

theorem lastById_bare (acls : List Acl) : lastById (acls.map bare) = (lastById acls).map bare := by
  induction acls using List.reverseRecOn with
  | nil => rfl
  | append_singleton acls x ih =>
    rw [List.map_append, List.map_singleton, lastById_snoc, lastById_snoc, ih, insert_bare]

theorem lightest?_bare (acls : List Acl) : lightest? (acls.map bare) = (lightest? acls).map bare := by
  induction acls with
  | nil => rfl
  | cons x xs ih =>
    rw [List.map_cons, lightest?, lightest?, ih]
    rcases lightest? xs with _ | other
    · rfl
    · simp only [Option.map_some, apply_ite (Option.map bare)]
      rfl

theorem shared_bare (userAcls hostAcls : List Acl) :
    shared (userAcls.map bare) (hostAcls.map bare) = (shared userAcls hostAcls).map bare := by
  rw [shared, shared, ← lastById_bare, List.filter_map]
  refine congrArg (fun acls => lastById (List.map bare acls)) (List.filter_congr fun acl _ => ?_)
  rw [Function.comp_apply, List.any_map]
  rfl

/-- The rules that groups carry, as far as they count for a decision. -/
def carried (groups : List GroupAcls) : List Acl :=
  (groups.flatMap GroupAcls.acls).map bare

/-- The decision is one for the rules that the groups carry. -/
theorem resolve_bare (userGroups hostGroups : List GroupAcls) :
    resolve userGroups hostGroups =
      match lightest? (shared (carried userGroups) (carried hostGroups)) with
      | some acl => Action.parse acl.action
      | none => .ok .deny := by
  rw [carried, carried, shared_bare, lightest?_bare, resolve]
  rcases lightest? _ with _ | acl <;> rfl

end Access

/-! ### Stores that look alike -/

namespace Store

open Access (bare carried)

variable {s s' : Store} {t : Table}

theorem map_bare {acls acls' : List Acl} (h : List.Forall₂ (SeenAlike bare) acls acls') :
    acls'.map bare = acls.map bare := by
  induction h with
  | nil => rfl
  | cons hacl _ ih => exact congrArg₂ List.cons hacl ih

/-- Groups that list the same rules carry the same, and their rules are read at as many moments. -/
theorem loadAcls_matched (hacls : List.Forall₂ (RowsMatch (SeenAlike bare)) (s.rows .acls) (s'.rows .acls))
    {groups groups' : List Group} (h : List.Forall₂ (SeenAlike Group.aclIds) groups groups') :
    ∀ next, Matched (fun x x' => carried x'.1 = carried x.1 ∧ x'.2 = x.2)
      (loadAcls (fun _ => s) next groups) (loadAcls (fun _ => s') next groups') := by
  induction h with
  | nil => exact fun _ => .ok ⟨rfl, rfl⟩
  | @cons group group' groups groups' hgroup _ ih =>
    intro next
    have hrules : group'.aclIds = group.aclIds := hgroup
    rw [loadAcls, loadAcls, hrules]
    rcases (getMany_matched hacls group.aclIds).cases with ⟨e, hx, hy⟩ | ⟨acls, acls', hx, hy, hacls⟩
    · rw [hx, hy]
      exact .error e
    rw [hx, hy]
    rcases (ih (next + 1)).cases with
      ⟨e, hx, hy⟩ | ⟨⟨more, last⟩, ⟨more', last'⟩, hx, hy, hmore, hlast⟩
    · show Matched _ (loadAcls _ _ _ >>= _) (loadAcls _ _ _ >>= _)
      rw [hx, hy]
      exact .error e
    · show Matched _ (loadAcls _ _ _ >>= _) (loadAcls _ _ _ >>= _)
      rw [hx, hy]
      refine .ok ⟨?_, hlast⟩
      have hbare : acls'.map bare = acls.map bare := map_bare hacls
      simp only [carried, List.flatMap_cons, List.map_append, hbare] at hmore ⊢
      rw [hmore]

theorem loadGroups_matched (hacls : List.Forall₂ (RowsMatch (SeenAlike bare)) (s.rows .acls) (s'.rows .acls))
    (h : List.Forall₂ (RowsMatch (SeenAlike Group.aclIds)) (s.rows t) (s'.rows t)) (next : Nat)
    (ids : List Id) :
    Matched (fun x x' => carried x'.1 = carried x.1 ∧ x'.2 = x.2)
      (loadGroups (fun _ => s) next t ids) (loadGroups (fun _ => s') next t ids) := by
  rw [loadGroups, loadGroups]
  rcases (getMany_matched h ids).cases with ⟨e, hx, hy⟩ | ⟨groups, groups', hx, hy, hgroups⟩
  · rw [hx, hy]
    exact .error e
  · rw [hx, hy]
    exact loadAcls_matched hacls hgroups (next + 1)

/-- The second store has all that a hook is shown of the hosts of the first, and all that counts of its
groups and rules for a decision. In every other way the two may differ. -/
structure ShownAlike (s s' : Store) : Prop where
  hosts : List.Forall₂ (RowsMatch (SeenAlike Access.HookHost.of)) (s.rows .hosts) (s'.rows .hosts)
  userGroups : List.Forall₂ (RowsMatch (SeenAlike Group.aclIds)) (s.rows .userGroups) (s'.rows .userGroups)
  hostGroups : List.Forall₂ (RowsMatch (SeenAlike Group.aclIds)) (s.rows .hostGroups) (s'.rows .hostGroups)
  acls : List.Forall₂ (RowsMatch (SeenAlike bare)) (s.rows .acls) (s'.rows .acls)

end Store

/-! ### One host -/

namespace Access

variable {s s' : Store} {user user' : User} {host host' : Host}

theorem decide_alike (h : s.ShownAlike s') (huser : SeenAlike HookUser.of user user')
    (hhost : SeenAlike HookHost.of host host') :
    decide (fun _ => s') user' host' = decide (fun _ => s) user host := by
  have huserIds : user'.groupIds = user.groupIds := congrArg HookUser.groupIds huser
  have hhostIds : host'.groupIds = host.groupIds := congrArg HookHost.groupIds hhost
  rw [decide, decide, huserIds, hhostIds]
  rcases (Store.loadGroups_matched h.acls h.userGroups 0 user.groupIds).cases with
    ⟨e, hx, hy⟩ | ⟨⟨groups, next⟩, ⟨groups', next'⟩, hx, hy, hgroups, hnext⟩
  · rw [hx, hy]
  dsimp only at hgroups hnext
  subst hnext
  rw [hx, hy]
  dsimp only
  rcases (Store.loadGroups_matched h.acls h.hostGroups next' host.groupIds).cases with
    ⟨e, hx, hy⟩ | ⟨⟨others, last⟩, ⟨others', last'⟩, hx, hy, hothers, -⟩
  · rw [hx, hy]
  · dsimp only at hothers
    rw [hx, hy]
    dsimp only
    rw [resolve_bare, resolve_bare, hgroups, hothers]

theorem check_alike (h : s.ShownAlike s') (hook : Option Hook) (huser : SeenAlike HookUser.of user user')
    (hhost : SeenAlike HookHost.of host host') : check s' hook user' host' = check s hook user host := by
  have hconsult : ∀ action, consultHook hook action user' host' = consultHook hook action user host := by
    intro action
    cases hook with
    | none => rfl
    | some hook => simp only [consultHook, Hook.consult, hookCall_eq_iff.mpr ⟨rfl, huser, hhost⟩]
  simp only [check, decide_alike h huser hhost, hconsult]

/-- A check takes back none of the calls that were made before it. -/
theorem prefix_check (s : Store) (hook : Option Hook) (user : User) (host : Host) (calls : List HookCall) :
    calls <+: ((check s hook user host).run calls).2 := by
  unfold check
  rcases decide (fun _ => s) user host with e | action
  · exact List.prefix_refl calls
  · cases hook with
    | none => exact List.prefix_refl calls
    | some hook => exact List.prefix_append calls _

end Access

end Gatehouse
