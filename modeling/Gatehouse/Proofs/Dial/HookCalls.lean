import Gatehouse.Proofs.Access.Shown
import Gatehouse.Proofs.Dial.Chain

/-!
# What a hook is told

`hook_told_only_shown`: the two documents that a hook is given read back as the members that are shown of the
user and of the host, with their values and with no others, so that two calls are the same just if the action
and these members are. When a target is resolved twice, from stores which may differ in all that is not shown
and that no decision depends on, the hook is called with the same arguments in the same order. One of the two
resolutions may end sooner than the other, but only at a host that it has no way to log in to.

Proof. In both stores the hook is asked about the same decisions (`Access.check_alike`), and what has been
called stays called (`prefix_walk`). The two walks go through hosts that look the same to the hook, by
induction on the room that is left (`walk_alike`).
-/

namespace Gatehouse.Dial

open Access (HookCall HookUser HookHost Action)

namespace Resolver

variable {r r' : Resolver} {user user' : User}

theorem prefix_admitHop (r : Resolver) (user : User) (host : Host) (calls : List HookCall) :
    calls <+: ((r.admitHop user host).run calls).2 := by
  have hcalls := Access.prefix_check r.store r.hook user host calls
  rw [admitHop_run]
  rcases hcheck : (Access.check r.store r.hook user host).run calls with ⟨e | action, calls'⟩
  all_goals rw [hcheck] at hcalls
  · exact hcalls
  · cases action <;> exact hcalls

/-- The calls at a host are followed by those at the hosts behind it. -/
theorem admitHop_prefix_walk {target : String} {room : Nat} {visited : List Id} {host : Host}
    (plan : List Spec) (calls : List HookCall) (hfresh : host.id ∉ visited)
    (hrest : ∀ visited plan host calls, calls <+: ((r.walk user target room visited plan host).run calls).2) :
    ((r.admitHop user host).run calls).2 <+:
      ((r.walk user target (room + 1) visited plan host).run calls).2 := by
  rw [walk_succ_run, if_neg hfresh]
  rcases (r.admitHop user host).run calls with ⟨e | spec, calls'⟩
  · exact List.prefix_refl calls'
  dsimp only
  rcases host.hopId with _ | id
  · exact List.prefix_refl calls'
  dsimp only
  rcases r.store.host id with e | _ | hop
  · exact List.prefix_refl calls'
  · exact List.prefix_refl calls'
  · exact hrest _ _ hop calls'

theorem prefix_walk (r : Resolver) (user : User) (target : String) (room : Nat) :
    ∀ (visited : List Id) (plan : List Spec) (host : Host) (calls : List HookCall),
      calls <+: ((r.walk user target room visited plan host).run calls).2 := by
  induction room with
  | zero => exact fun _ _ _ calls => List.prefix_refl calls
  | succ room ih =>
    intro visited plan host calls
    by_cases hseen : host.id ∈ visited
    · simp only [walk_succ_run, if_pos hseen, List.prefix_rfl]
    · exact (prefix_admitHop r user host calls).trans (admitHop_prefix_walk plan calls hseen ih)

/-- A resolution ended at a host that only the other one had a way to log in to. What has been called by then
is also called in the other one. -/
def EndsSooner (r r' : Resolver) (x y : Except BastionError (List Spec) × List HookCall) : Prop :=
  x.2 <+: y.2 ∧ ∃ host host' e spec, SeenAlike HookHost.of host host' ∧ x.1 = .error e ∧
    Spec.ofHost r.store r.box host = .error e ∧ Spec.ofHost r'.store r'.box host' = .ok spec

/-- The hook has been called alike in two resolutions, for as long as both went on. -/
inductive CalledAlike (r r' : Resolver) (x y : Except BastionError (List Spec) × List HookCall) : Prop where
  | same (h : y.2 = x.2)
  | left (h : r.EndsSooner r' x y)
  | right (h : r'.EndsSooner r y x)

theorem getElem?_after {calls calls' : List HookCall} (h : calls <+: calls') {n : Nat} {call : HookCall}
    (hcall : calls[n]? = some call) : calls'[n]? = some call := by
  obtain ⟨more, rfl⟩ := h
  obtain ⟨hn, -⟩ := List.getElem?_eq_some_iff.mp hcall
  rw [List.getElem?_append_left hn, hcall]

/-- Calls in the same place are the same. -/
theorem CalledAlike.same_place {x y : Except BastionError (List Spec) × List HookCall}
    (h : r.CalledAlike r' x y) {n : Nat} {call call' : HookCall} (hx : x.2[n]? = some call)
    (hy : y.2[n]? = some call') : call' = call := by
  cases h with
  | same heq =>
    rw [heq, hx] at hy
    exact (Option.some.inj hy).symm
  | left h =>
    rw [getElem?_after h.1 hx] at hy
    exact (Option.some.inj hy).symm
  | right h =>
    rw [getElem?_after h.1 hy] at hx
    exact Option.some.inj hx

/-- Two resolvers ask the same hook, go to the same depth, and have stores that look alike. -/
structure ShownAlike (r r' : Resolver) : Prop where
  store : r.store.ShownAlike r'.store
  hook : r'.hook = r.hook
  maxHops : r'.maxHops = r.maxHops

theorem walk_alike (h : r.ShownAlike r') (huser : SeenAlike HookUser.of user user') (target : String)
    (room : Nat) :
    ∀ (visited : List Id) (plan plan' : List Spec) {host host' : Host} (calls : List HookCall),
      SeenAlike HookHost.of host host' →
      CalledAlike r r' ((r.walk user target room visited plan host).run calls)
        ((r'.walk user' target room visited plan' host').run calls) := by
  induction room with
  | zero => exact fun _ _ _ _ _ calls _ => .same rfl
  | succ room ih =>
    intro visited plan plan' host host' calls hhost
    have hid : host'.id = host.id := congrArg HookHost.id hhost
    have hhop : host'.hopId = host.hopId := congrArg HookHost.hopId hhost
    by_cases hseen : host.id ∈ visited
    · rw [walk_succ_run, walk_succ_run, hid, if_pos hseen, if_pos hseen]
      exact .same rfl
    have hseen' : host'.id ∉ visited := hid ▸ hseen
    have hx := admitHop_prefix_walk plan calls hseen (r.prefix_walk user target room)
    have hy := admitHop_prefix_walk plan' calls hseen' (r'.prefix_walk user' target room)
    have hadmitted := @admitHop_run r user host calls
    have hadmitted' := @admitHop_run r' user' host' calls
    rw [h.hook, Access.check_alike h.store r.hook huser hhost] at hadmitted'
    rcases hcheck : (Access.check r.store r.hook user host).run calls with ⟨e | action, calls'⟩
    all_goals rw [hcheck] at hadmitted hadmitted'
    · rw [walk_succ_run, walk_succ_run, if_neg hseen, if_neg hseen', hadmitted, hadmitted']
      exact .same rfl
    cases action with
    | deny =>
      rw [walk_succ_run, walk_succ_run, if_neg hseen, if_neg hseen', hadmitted, hadmitted']
      exact .same rfl
    | allow =>
      rw [hadmitted] at hx
      rw [hadmitted'] at hy
      rcases hspec : Spec.ofHost r.store r.box host with e | spec <;>
        rcases hspec' : Spec.ofHost r'.store r'.box host' with e' | spec'
      · rw [walk_succ_run, walk_succ_run, if_neg hseen, if_neg hseen', hadmitted, hadmitted', hspec, hspec']
        exact .same rfl
      · refine .left ⟨?_, host, host', e, spec', hhost, ?_, hspec, hspec'⟩
        all_goals rw [walk_succ_run, if_neg hseen, hadmitted, hspec]
        exact hy
      · refine .right ⟨?_, host', host, e', spec, hhost.symm, ?_, hspec', hspec⟩
        all_goals rw [walk_succ_run, if_neg hseen', hadmitted', hspec']
        exact hx
      rw [walk_succ_run, walk_succ_run, if_neg hseen, if_neg hseen', hadmitted, hadmitted', hspec, hspec',
        hid, hhop]
      dsimp only
      rcases host.hopId with _ | id
      · exact .same rfl
      have hnext : Matched _ (r.store.host id) (r'.store.host id) := Store.get_matched h.store.hosts id
      dsimp only
      rcases hnext.lookup_cases with ⟨e, hx, hy⟩ | ⟨hx, hy⟩ | ⟨hop, hop', hx, hy, hnext⟩
      · rw [hx, hy]
        exact .same rfl
      · rw [hx, hy]
        exact .same rfl
      · rw [hx, hy]
        exact ih _ _ _ calls' hnext

end Resolver

/-- A hook is given the action and two documents. These read back as the members that are shown of the user and
of the host, for all texts, and nothing else, so that two calls are the same just if the action and all that
is shown are. When a target is resolved twice, and the users, the hosts and the stores differ only in what is
not shown and in what no decision depends on, every call in the one resolution is the same as the call in its
place in the other. One of the two can end sooner, at a host that only the other has a way to log in to. -/
theorem hook_told_only_shown :
    (∀ (action : Action) (user : User) (host : Host),
      let call := HookCall.of action user host
      call.action = action.word ∧ Json.parseTree call.user = .ok (Access.userTree user) ∧
        Json.parseTree call.host = .ok (Access.hostTree host)) ∧
    (∀ (action action' : Action) (user user' : User) (host host' : Host),
      HookCall.of action' user' host' = HookCall.of action user host ↔
        action' = action ∧ SeenAlike HookUser.of user user' ∧ SeenAlike HookHost.of host host') ∧
    ∀ {r r' : Resolver} {user user' : User} {target target' : Host}, r.ShownAlike r' →
      SeenAlike HookUser.of user user' → SeenAlike HookHost.of target target' → ∀ calls,
        let x := (r.resolve user target).run calls
        let y := (r'.resolve user' target').run calls
        (∀ (n : Nat) (call call' : HookCall), x.2[n]? = some call → y.2[n]? = some call' → call' = call) ∧
          r.CalledAlike r' x y := by
  refine ⟨fun action user host => ⟨rfl, Access.parseTree_hookUser user, Access.parseTree_hookHost host⟩,
    fun _ _ _ _ _ _ => Access.hookCall_eq_iff, ?_⟩
  intro r r' user user' target target' h huser htarget calls x y
  have hname : target'.name = target.name := congrArg HookHost.name htarget
  have hcalled : r.CalledAlike r' x y := by
    show r.CalledAlike r' _ ((r'.walk user' target'.name r'.maxHops [] [] target').run calls)
    rw [hname, h.maxHops]
    exact Resolver.walk_alike h huser target.name r.maxHops [] [] [] calls htarget
  exact ⟨fun _ _ _ hx hy => hcalled.same_place hx hy, hcalled⟩

/-- Two hosts and a user whose secrets and comments are all different, under rules with other comments. The hook
is asked the same about both hosts. -/
theorem hook_told_only_shown_other_secrets :
    let ann : User := { id := 1, name := "a\"nn\\", email := "ann@x", groupIds := [1], roles := ["dev\n"] }
    let ann' := { ann with inviteToken := "token", inviteExpiresAt := some .epoch, comment := "late" }
    let gate : Host :=
      { id := 1, name := "gate", addr := "10.0.0.1", user := "root", password := "one", groupIds := [1] }
    let web : Host := { gate with id := 2, name := "web", hopId := some 1 }
    let other (host : Host) : Host :=
      { host with password := "two", logging := .disabled, hostKey := [1, 2], comment := "old" }
    let group : Group := { id := 1, name := "ops", aclIds := [1] }
    let rule : Acl := { id := 1, action := "allow", weight := 1 }
    let stored (group : Group) (rule : Acl) (host : Host) : Store :=
      (((Store.empty.putBytes .userGroups 1 (MessagePack.encode group)).putBytes .hostGroups 1
        (MessagePack.encode group)).putBytes .acls 1 (MessagePack.encode rule)).putBytes .hosts 1
          (MessagePack.encode host)
    let hook : Access.Hook := ⟨fun _ _ => .failed⟩
    let r : Resolver := ⟨stored group rule gate, .disabled, some hook, 2⟩
    let commented := stored { group with comment := "all" } { rule with comment := "first" } (other gate)
    let r' : Resolver := ⟨commented, .disabled, some hook, 2⟩
    let x := (r.resolve ann web).run []
    let y := (r'.resolve ann' (other web)).run []
    r.ShownAlike r' ∧ SeenAlike HookUser.of ann ann' ∧ SeenAlike HookHost.of web (other web) ∧
      x.2 = [HookCall.of .allow ann web, HookCall.of .allow ann gate] ∧ y.2 = x.2 := by
  intro ann ann' gate web other group rule stored hook r commented r' x y
  have hstore : r.store.ShownAlike r'.store := by
    refine ⟨.cons ⟨rfl, ?_⟩ .nil, .cons ⟨rfl, ?_⟩ .nil, .cons ⟨rfl, ?_⟩ .nil, .cons ⟨rfl, ?_⟩ .nil⟩
    all_goals rw [Store.decode_encode _ (by decide +kernel), Store.decode_encode _ (by decide +kernel)]
    all_goals exact .ok rfl
  have h : r.ShownAlike r' := ⟨hstore, rfl, rfl⟩
  have huser : SeenAlike HookUser.of ann ann' := rfl
  have htarget : SeenAlike HookHost.of web (other web) := rfl
  have hx : x.1.toOption.isSome = true := by decide +kernel
  have hy : y.1.toOption.isSome = true := by decide +kernel
  refine ⟨h, huser, htarget, by decide +kernel, ?_⟩
  rcases (hook_told_only_shown.2.2 h huser htarget []).2 with
    hsame | ⟨-, _, _, e, _, -, hended, -⟩ | ⟨-, _, _, e, _, -, hended, -⟩
  · exact hsame
  · rw [show x.1 = .error e from hended] at hx
    cases hx
  · rw [show y.1 = .error e from hended] at hy
    cases hy

end Gatehouse.Dial
