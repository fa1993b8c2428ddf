import Gatehouse.Dial.Chain
import Mathlib.Data.List.Chain
import Mathlib.Data.List.Nodup

/-!
# What resolving a hop chain comes to

`resolve_course`: the outcome of `Resolver.resolve`, for every store, is the outcome of following the
hop links from the target. A walk that comes to a host without a hop gives the dial specifications of
its hosts, the last one first, provided that it has at most `maxHops` hosts, no identifier twice, that
all its hosts are open to the user, and that all have a specification (`Arrives`). Every other walk
gives the error of the first step that fails, in the order of the hosts and, at each host, of the
steps (`Breaks`).

Proof. `walk` has three accumulators, which are functions of the hosts that it has passed: the
identifiers backwards, the specifications backwards, and what is left of `maxHops`. `walk_passed`
says that passing hosts moves the walk on and nothing else; `walk_course` follows the recursion of
`walk` with the hosts passed so far (`Passes`) as its invariant. The hook is a part of the state: what
it says may depend on the calls made before, so `Cleared` hands the calls on from check to check.
-/

namespace Gatehouse.Dial

open Access (HookCall HookM Action)

/-- The row of `b` is the one that `a` names as its hop. -/
def HopOf (s : Store) (a b : Host) : Prop :=
  ∃ id, a.hopId = some id ∧ s.host id = .ok (some b)

/-- The hosts follow the hop links from the target on. -/
def IsWalk (s : Store) (target : Host) (hosts : List Host) : Prop :=
  hosts.head? = some target ∧ hosts.IsChain (HopOf s)

theorem IsWalk.snoc {s : Store} {target a b : Host} {before : List Host}
    (h : IsWalk s target (before ++ [a])) (hhop : HopOf s a b) :
    IsWalk s target (before ++ [a] ++ [b]) := by
  obtain ⟨hhead, hchain⟩ := h
  refine ⟨?_, ?_⟩
  · rw [List.head?_append, hhead]
    rfl
  · refine hchain.append (List.isChain_singleton b) ?_
    intro x hx y hy
    rw [List.getLast?_concat] at hx
    cases hx
    cases hy
    exact hhop

theorem IsWalk.of_snoc {s : Store} {target a b : Host} {before : List Host}
    (h : IsWalk s target (before ++ [a] ++ [b])) :
    IsWalk s target (before ++ [a]) ∧ HopOf s a b := by
  obtain ⟨hhead, hchain⟩ := h
  rw [List.isChain_append] at hchain
  obtain ⟨hbefore, -, hlink⟩ := hchain
  refine ⟨⟨?_, hbefore⟩, hlink a (by simp) b (by simp)⟩
  rw [List.head?_append] at hhead
  cases before <;> simpa using hhead

theorem Spec.host_of_ofHost {s : Store} {box : SecretBox} {host : Host} {spec : Spec}
    (h : Spec.ofHost s box host = .ok spec) : spec.host = host := by
  unfold Spec.ofHost at h
  split at h
  · cases h
  · simp only [bind, Except.bind] at h
    split at h
    · cases h
    · next keys _ =>
      by_cases hnone : (keys ++ passwordCredential box host).isEmpty = true
      · rw [if_pos hnone] at h
        cases h
      · rw [if_neg hnone] at h
        cases h
        rfl

namespace Resolver

variable (r : Resolver) (user : User)

/-- All hosts are open to the user when they are checked in this order, after `calls` of the hook.
`calls'` are the calls after the checks. -/
inductive Cleared : List HookCall → List Host → List HookCall → Prop where
  | nil {calls} : Cleared calls [] calls
  | cons {calls mid calls' host hosts} :
    (Access.check r.store r.hook user host).run calls = (.ok .allow, mid) →
      Cleared mid hosts calls' → Cleared calls (host :: hosts) calls'

/-- Nothing fails at any of the hosts, except perhaps that the last one has a hop that is not
there. -/
structure Passes (calls : List HookCall) (hosts : List Host) (specs : List Spec)
    (calls' : List HookCall) : Prop where
  distinct : (hosts.map Host.id).Nodup
  bounded : hosts.length ≤ r.maxHops
  cleared : r.Cleared user calls hosts calls'
  dialable : hosts.map (Spec.ofHost r.store r.box) = specs.map .ok

/-- The walk over the hosts comes to an end, with this plan. -/
def Arrives (target : Host) (calls : List HookCall) (hosts : List Host) (plan : List Spec)
    (calls' : List HookCall) : Prop :=
  IsWalk r.store target hosts ∧ (∀ last ∈ hosts.getLast?, last.hopId = none) ∧
    ∃ specs, r.Passes user calls hosts specs calls' ∧ plan = specs.reverse

/-- A host may be added to those of a walk: it is not among them, and there are not too many. -/
def Admissible (before : List Host) (host : Host) : Prop :=
  host.id ∉ before.map Host.id ∧ before.length < r.maxHops

instance (before : List Host) (host : Host) : Decidable (r.Admissible before host) := by
  unfold Admissible; infer_instance

/-- The error of the first step that fails at a host, and the calls of the hook after it. -/
inductive Fails (target : Host) (before : List Host) (host : Host) (calls : List HookCall) :
    BastionError → List HookCall → Prop where
  | guard : ¬ r.Admissible before host →
      Fails target before host calls (.hopCycle target.name r.maxHops) calls
  | undecided {e calls'} : r.Admissible before host →
      (Access.check r.store r.hook user host).run calls = (.error e, calls') →
      Fails target before host calls (.acl e) calls'
  | denied {calls'} : r.Admissible before host →
      (Access.check r.store r.hook user host).run calls = (.ok .deny, calls') →
      Fails target before host calls .accessDenied calls'
  | undialable {e calls'} : r.Admissible before host →
      (Access.check r.store r.hook user host).run calls = (.ok .allow, calls') →
      Spec.ofHost r.store r.box host = .error e →
      Fails target before host calls e calls'
  | unreadable {e spec id calls'} : r.Admissible before host →
      (Access.check r.store r.hook user host).run calls = (.ok .allow, calls') →
      Spec.ofHost r.store r.box host = .ok spec → host.hopId = some id →
      r.store.host id = .error e →
      Fails target before host calls (.store e) calls'
  | dangling {spec id calls'} : r.Admissible before host →
      (Access.check r.store r.hook user host).run calls = (.ok .allow, calls') →
      Spec.ofHost r.store r.box host = .ok spec → host.hopId = some id →
      r.store.host id = .ok none →
      Fails target before host calls (.unknownHost ("#" ++ BastionError.number id.toNat)) calls'

/-- The walk over the hosts fails at the last of them, with this error. -/
def Breaks (target : Host) (calls : List HookCall) (hosts : List Host) (e : BastionError)
    (calls' : List HookCall) : Prop :=
  IsWalk r.store target hosts ∧ ∃ before host specs mid, hosts = before ++ [host] ∧
    r.Passes user calls before specs mid ∧ r.Fails user target before host mid e calls'

/-- The walk over the hosts has this outcome. -/
def Course (target : Host) (calls : List HookCall) (hosts : List Host) :
    Except BastionError (List Spec) → List HookCall → Prop
  | .ok plan, calls' => r.Arrives user target calls hosts plan calls'
  | .error e, calls' => r.Breaks user target calls hosts e calls'

variable {r user}

/-! ### Passing one more host -/

theorem Cleared.append {calls mid calls' : List HookCall} {xs ys : List Host}
    (hx : r.Cleared user calls xs mid) (hy : r.Cleared user mid ys calls') :
    r.Cleared user calls (xs ++ ys) calls' := by
  induction hx with
  | nil => exact hy
  | cons hcheck _ ih => exact .cons hcheck (ih hy)

theorem Cleared.of_append {calls calls' : List HookCall} {xs ys : List Host}
    (h : r.Cleared user calls (xs ++ ys) calls') :
    ∃ mid, r.Cleared user calls xs mid ∧ r.Cleared user mid ys calls' := by
  induction xs generalizing calls with
  | nil => exact ⟨calls, .nil, h⟩
  | cons x xs ih =>
    cases h with
    | cons hcheck hrest =>
      obtain ⟨mid, hxs, hys⟩ := ih hrest
      exact ⟨mid, .cons hcheck hxs, hys⟩

theorem Passes.nil (calls : List HookCall) : r.Passes user calls [] [] calls :=
  ⟨List.nodup_nil, Nat.zero_le _, .nil, rfl⟩

theorem Passes.snoc {calls mid calls' : List HookCall} {before : List Host} {specs : List Spec}
    {host : Host} {spec : Spec} (h : r.Passes user calls before specs mid)
    (hadm : r.Admissible before host)
    (hcheck : (Access.check r.store r.hook user host).run mid = (.ok .allow, calls'))
    (hspec : Spec.ofHost r.store r.box host = .ok spec) :
    r.Passes user calls (before ++ [host]) (specs ++ [spec]) calls' := by
  obtain ⟨hfresh, hroom⟩ := hadm
  refine ⟨?_, ?_, h.cleared.append (.cons hcheck .nil), ?_⟩
  · rw [List.map_append, List.map_singleton]
    exact List.Nodup.append h.distinct (List.nodup_singleton _)
      (List.disjoint_singleton.mpr hfresh)
  · rw [List.length_append, List.length_singleton]
    omega
  · rw [List.map_append, List.map_append, h.dialable, List.map_singleton, List.map_singleton, hspec]

/-- The other way round: of the hosts that are passed, the last one comes after the others. -/
theorem Passes.of_snoc {calls calls' : List HookCall} {before : List Host} {specs : List Spec}
    {host : Host} (h : r.Passes user calls (before ++ [host]) specs calls') :
    ∃ init spec mid, specs = init ++ [spec] ∧ r.Passes user calls before init mid ∧
      r.Admissible before host ∧
      (Access.check r.store r.hook user host).run mid = (.ok .allow, calls') ∧
      Spec.ofHost r.store r.box host = .ok spec := by
  obtain ⟨hdistinct, hbounded, hcleared, hdialable⟩ := h
  rw [List.map_append, List.map_singleton, List.nodup_append] at hdistinct
  rw [List.length_append, List.length_singleton] at hbounded
  obtain ⟨mid, hbefore, hlast⟩ := hcleared.of_append
  rw [List.map_append, List.map_singleton] at hdialable
  obtain ⟨init, tail, rfl, hinit, htail⟩ := List.map_eq_append_iff.mp hdialable.symm
  obtain ⟨spec, rfl, hspec⟩ := List.map_eq_singleton_iff.mp htail
  cases hlast with
  | cons hcheck hnil =>
    cases hnil
    refine ⟨init, spec, mid, rfl, ⟨hdistinct.1, by omega, hbefore, hinit.symm⟩, ⟨?_, by omega⟩,
      hcheck, hspec.symm⟩
    intro hmem
    exact hdistinct.2.2 _ hmem _ (List.mem_singleton_self _) rfl

/-! ### One host -/

/-- What is done at a host that may be added to the walk, up to its specification. -/
theorem admitHop_run (host : Host) (calls : List HookCall) :
    (r.admitHop user host).run calls =
      match (Access.check r.store r.hook user host).run calls with
      | (.error e, calls') => (.error (.acl e), calls')
      | (.ok .deny, calls') => (.error .accessDenied, calls')
      | (.ok .allow, calls') => (Spec.ofHost r.store r.box host, calls') := by
  simp only [admitHop, StateT.run_bind]
  obtain ⟨result, calls'⟩ := (Access.check r.store r.hook user host).run calls
  rcases result with e | action
  · rfl
  · cases action <;> rfl

theorem walk_succ_run (target : String) (room : Nat) (visited : List Id) (plan : List Spec)
    (host : Host) (calls : List HookCall) :
    (r.walk user target (room + 1) visited plan host).run calls =
      if host.id ∈ visited then (.error (.hopCycle target r.maxHops), calls)
      else
        match (r.admitHop user host).run calls with
        | (.error e, calls') => (.error e, calls')
        | (.ok spec, calls') =>
          match host.hopId with
          | none => (.ok (spec :: plan), calls')
          | some id =>
            match r.store.host id with
            | .error e => (.error (.store e), calls')
            | .ok none => (.error (.unknownHost ("#" ++ BastionError.number id.toNat)), calls')
            | .ok (some hop) =>
              (r.walk user target room (host.id :: visited) (spec :: plan) hop).run calls' := by
  rw [walk]
  split_ifs with hseen
  · rfl
  · simp only [StateT.run_bind]
    obtain ⟨result, calls'⟩ := (r.admitHop user host).run calls
    rcases result with e | spec
    · rfl
    · dsimp only
      cases host.hopId with
      | none => rfl
      | some id =>
        dsimp only
        rcases r.store.host id with e | hop
        · rfl
        · cases hop <;> rfl

/-- The walk as it stands at a host after those of `before`, which have these specifications. -/
def walkAfter (r : Resolver) (user : User) (target : Host) (before : List Host) (specs : List Spec)
    (host : Host) : HookM (Except BastionError (List Spec)) :=
  r.walk user target.name (r.maxHops - before.length) (before.map Host.id).reverse specs.reverse host

/-- One step of the walk, said by the hosts that it has passed. -/
theorem walkAfter_run (target : Host) {before : List Host} (specs : List Spec) (host : Host)
    (calls : List HookCall) :
    (r.walkAfter user target before specs host).run calls =
      if r.Admissible before host then
        match (r.admitHop user host).run calls with
        | (.error e, calls') => (.error e, calls')
        | (.ok spec, calls') =>
          match host.hopId with
          | none => (.ok (specs ++ [spec]).reverse, calls')
          | some id =>
            match r.store.host id with
            | .error e => (.error (.store e), calls')
            | .ok none => (.error (.unknownHost ("#" ++ BastionError.number id.toNat)), calls')
            | .ok (some hop) =>
              (r.walkAfter user target (before ++ [host]) (specs ++ [spec]) hop).run calls'
      else (.error (.hopCycle target.name r.maxHops), calls) := by
  unfold walkAfter
  rcases Nat.lt_or_ge before.length r.maxHops with hroom | hfull
  · obtain ⟨room, hroom'⟩ : ∃ room, r.maxHops - before.length = room + 1 :=
      ⟨r.maxHops - before.length - 1, by omega⟩
    have hnext : r.maxHops - (before ++ [host]).length = room := by
      rw [List.length_append, List.length_singleton]
      omega
    rw [hroom', walk_succ_run, hnext, List.map_append, List.reverse_append]
    simp only [List.reverse_append]
    by_cases hseen : host.id ∈ before.map Host.id
    · rw [if_pos (List.mem_reverse.mpr hseen), if_neg fun hadm => hadm.1 hseen]
    · rw [if_neg fun hmem => hseen (List.mem_reverse.mp hmem), if_pos ⟨hseen, hroom⟩]
      rfl
  · rw [Nat.sub_eq_zero_of_le hfull, if_neg fun hadm => absurd hadm.2 (Nat.not_lt.mpr hfull)]
    rfl

/-- What a step of the walk can come to: it fails, it ends, or it goes on at the hop. -/
theorem walkAfter_cases (r : Resolver) (user : User) (target : Host) (before : List Host)
    (specs : List Spec) (host : Host) (calls : List HookCall) :
    (∃ e calls', r.Fails user target before host calls e calls' ∧
      (r.walkAfter user target before specs host).run calls = (.error e, calls')) ∨
    ∃ spec calls', r.Admissible before host ∧
      (Access.check r.store r.hook user host).run calls = (.ok .allow, calls') ∧
      Spec.ofHost r.store r.box host = .ok spec ∧
      (host.hopId = none ∧
          (r.walkAfter user target before specs host).run calls =
            (.ok (specs ++ [spec]).reverse, calls') ∨
        ∃ hop, HopOf r.store host hop ∧
          (r.walkAfter user target before specs host).run calls =
            (r.walkAfter user target (before ++ [host]) (specs ++ [spec]) hop).run calls') := by
  rw [walkAfter_run, admitHop_run]
  by_cases hadm : r.Admissible before host
  · rw [if_pos hadm]
    rcases hcheck : (Access.check r.store r.hook user host).run calls with ⟨e | action, calls'⟩
    · exact .inl ⟨_, calls', .undecided hadm hcheck, rfl⟩
    · cases action with
      | deny => exact .inl ⟨_, calls', .denied hadm hcheck, rfl⟩
      | allow =>
        dsimp only
        rcases hspec : Spec.ofHost r.store r.box host with e | spec
        · exact .inl ⟨e, calls', .undialable hadm hcheck hspec, rfl⟩
        · rcases hhop : host.hopId with _ | id
          · exact .inr ⟨spec, calls', hadm, rfl, rfl, .inl ⟨rfl, rfl⟩⟩
          · rcases hrow : r.store.host id with e | _ | hop
            · exact .inl ⟨_, calls', .unreadable hadm hcheck hspec hhop hrow, by simp only [hrow]⟩
            · exact .inl ⟨_, calls', .dangling hadm hcheck hspec hhop hrow, by simp only [hrow]⟩
            · exact .inr ⟨spec, calls', hadm, rfl, rfl, .inr ⟨hop, ⟨id, hhop, hrow⟩,
                by simp only [hrow]⟩⟩
  · rw [if_neg hadm]
    exact .inl ⟨_, calls, .guard hadm, rfl⟩

/-- A host that fails ends the walk with its error. -/
theorem Fails.walkAfter_run {target : Host} {before : List Host} {host : Host}
    {calls calls' : List HookCall} {e : BastionError} (specs : List Spec)
    (h : r.Fails user target before host calls e calls') :
    (r.walkAfter user target before specs host).run calls = (.error e, calls') := by
  rw [Resolver.walkAfter_run, admitHop_run]
  cases h with
  | guard hadm => rw [if_neg hadm]
  | undecided hadm hcheck | denied hadm hcheck => rw [if_pos hadm, hcheck]
  | undialable hadm hcheck hspec =>
    rw [if_pos hadm, hcheck]
    simp only [hspec]
  | unreadable hadm hcheck hspec hhop hrow | dangling hadm hcheck hspec hhop hrow =>
    rw [if_pos hadm, hcheck]
    simp only [hspec, hhop, hrow]

/-! ### The whole walk -/

/-- From wherever a walk has got to, its outcome is that of a course. -/
theorem walkAfter_course (target : Host) (calls : List HookCall) (room : Nat) :
    ∀ (before : List Host) (specs : List Spec) (host : Host) (mid : List HookCall),
      r.Passes user calls before specs mid → IsWalk r.store target (before ++ [host]) →
      r.maxHops - before.length ≤ room →
      ∃ hosts, r.Course user target calls hosts
        ((r.walkAfter user target before specs host).run mid).1
        ((r.walkAfter user target before specs host).run mid).2 := by
  induction room with
  | zero =>
    intro before specs host mid hpass hwalk hroom
    rcases walkAfter_cases r user target before specs host mid with
      ⟨e, calls', hfail, hrun⟩ | ⟨_, _, hadm, _⟩
    · rw [hrun]
      exact ⟨before ++ [host], hwalk, before, host, specs, mid, rfl, hpass, hfail⟩
    · exact absurd hadm.2 (by omega)
  | succ room ih =>
    intro before specs host mid hpass hwalk hroom
    rcases walkAfter_cases r user target before specs host mid with
      ⟨e, calls', hfail, hrun⟩ | ⟨spec, calls', hadm, hcheck, hspec, hend⟩
    · rw [hrun]
      exact ⟨before ++ [host], hwalk, before, host, specs, mid, rfl, hpass, hfail⟩
    · have hnext := hpass.snoc hadm hcheck hspec
      rcases hend with ⟨hhop, hrun⟩ | ⟨hop, hhop, hrun⟩
      · rw [hrun]
        refine ⟨before ++ [host], hwalk, ?_, specs ++ [spec], hnext, rfl⟩
        intro last hlast
        rw [List.getLast?_concat, Option.mem_some_iff] at hlast
        rw [← hlast, hhop]
      · rw [hrun]
        refine ih _ _ hop calls' hnext (hwalk.snoc hhop) ?_
        rw [List.length_append, List.length_singleton]
        omega

/-- Hosts that are passed leave the rest of the walk to be done, and nothing else. -/
theorem resolve_run_of_passes {target : Host} {calls : List HookCall} {before : List Host} :
    ∀ {specs : List Spec} {host : Host} {mid : List HookCall},
      r.Passes user calls before specs mid → IsWalk r.store target (before ++ [host]) →
      (r.resolve user target).run calls = (r.walkAfter user target before specs host).run mid := by
  induction before using List.reverseRecOn with
  | nil =>
    intro specs host mid hpass hwalk
    obtain ⟨-, -, hcleared, hdialable⟩ := hpass
    cases hcleared
    rw [List.map_nil, eq_comm, List.map_eq_nil_iff] at hdialable
    obtain ⟨hhead, -⟩ := hwalk
    cases hhead
    rw [hdialable]
    rfl
  | append_singleton before last ih =>
    intro specs host mid hpass hwalk
    obtain ⟨init, spec, calls', rfl, hbefore, hadm, hcheck, hspec⟩ := hpass.of_snoc
    obtain ⟨hwalk', id, hhop, hrow⟩ := hwalk.of_snoc
    rw [ih hbefore hwalk', walkAfter_run, admitHop_run, if_pos hadm, hcheck]
    simp only [hspec, hhop, hrow]

/-- A course has only one outcome, which is that of the walk. -/
theorem Course.run_eq {target : Host} {calls calls' : List HookCall} {hosts : List Host}
    {result : Except BastionError (List Spec)}
    (h : r.Course user target calls hosts result calls') :
    (r.resolve user target).run calls = (result, calls') := by
  rcases result with e | plan
  · obtain ⟨hwalk, before, host, specs, mid, rfl, hpass, hfail⟩ := h
    rw [resolve_run_of_passes hpass hwalk, hfail.walkAfter_run]
  · obtain ⟨hwalk, hend, specs, hpass, rfl⟩ := h
    obtain ⟨before, last, rfl⟩ : ∃ before last, hosts = before ++ [last] := by
      rcases List.eq_nil_or_concat' hosts with rfl | hconcat
      · cases hwalk.1
      · exact hconcat
    obtain ⟨init, spec, mid, rfl, hbefore, hadm, hcheck, hspec⟩ := hpass.of_snoc
    have hhop : last.hopId = none := hend last (by simp)
    rw [resolve_run_of_passes hbefore hwalk, walkAfter_run, admitHop_run, if_pos hadm, hcheck]
    simp only [hspec, hhop]

/-! ### The plan -/

theorem Passes.hosts_eq {calls calls' : List HookCall} {hosts : List Host} {specs : List Spec}
    (h : r.Passes user calls hosts specs calls') : specs.map Spec.host = hosts := by
  have hdialable := h.dialable
  clear h
  induction hosts generalizing specs with
  | nil =>
    rw [List.map_nil, eq_comm, List.map_eq_nil_iff] at hdialable
    rw [hdialable]
    rfl
  | cons host hosts ih =>
    cases specs with
    | nil => cases hdialable
    | cons spec specs =>
      rw [List.map_cons, List.map_cons, List.cons.injEq] at hdialable
      obtain ⟨hspec, hrest⟩ := hdialable
      rw [List.map_cons, Spec.host_of_ofHost hspec, ih hrest]

/-- The plan is that of the hosts walked over, with the last one first. -/
theorem Arrives.hosts_eq {target : Host} {calls calls' : List HookCall} {hosts : List Host}
    {plan : List Spec} (h : r.Arrives user target calls hosts plan calls') :
    (plan.map Spec.host).reverse = hosts := by
  obtain ⟨-, -, specs, hpass, rfl⟩ := h
  rw [List.map_reverse, List.reverse_reverse, hpass.hosts_eq]

theorem Arrives.plan_ne_nil {target : Host} {calls calls' : List HookCall} {hosts : List Host}
    {plan : List Spec} (h : r.Arrives user target calls hosts plan calls') : plan ≠ [] := by
  rintro rfl
  have hhosts := h.hosts_eq
  obtain ⟨⟨hhead, -⟩, -⟩ := h
  rw [← hhosts] at hhead
  cases hhead

/-! ### The hook -/

/-- The calls are about these hosts, one about each, in this order. -/
def CallsAbout (user : User) (hosts : List Host) (calls : List HookCall) : Prop :=
  List.Forall₂ (fun host call => ∃ action, call = HookCall.of action user host) hosts calls

/-- A check calls the hook about its host, or does not call it. -/
theorem check_calls (r : Resolver) (user : User) (host : Host) (calls : List HookCall) :
    ∃ consulted new, consulted.Sublist [host] ∧ CallsAbout user consulted new ∧
      ((Access.check r.store r.hook user host).run calls).2 = calls ++ new ∧
      (r.hook = none → new = []) := by
  unfold Access.check
  rcases Access.decide (fun _ => r.store) user host with e | action
  · exact ⟨[], [], List.nil_sublist _, .nil, (List.append_nil _).symm, fun _ => rfl⟩
  · dsimp only
    rcases hhook : r.hook with _ | hook
    · exact ⟨[], [], List.nil_sublist _, .nil, (List.append_nil _).symm, fun _ => rfl⟩
    · exact ⟨[host], [HookCall.of action user host], List.Sublist.refl _, .cons ⟨action, rfl⟩ .nil,
        rfl, fun h => by cases h⟩

/-- Checks of several hosts call the hook about some of them, in the order of the hosts. -/
theorem Cleared.calls {calls calls' : List HookCall} {hosts : List Host}
    (h : r.Cleared user calls hosts calls') :
    ∃ consulted new, consulted.Sublist hosts ∧ CallsAbout user consulted new ∧
      calls' = calls ++ new ∧ (r.hook = none → new = []) := by
  induction h with
  | nil => exact ⟨[], [], List.nil_sublist _, .nil, (List.append_nil _).symm, fun _ => rfl⟩
  | @cons calls mid calls' host hosts hcheck _ ih =>
    obtain ⟨first, new, hfirst, habout, hmid, hnone⟩ :=
      check_calls r user host calls
    obtain ⟨rest, later, hrest, habout', rfl, hnone'⟩ := ih
    rw [hcheck] at hmid
    refine ⟨first ++ rest, new ++ later, hfirst.append hrest, List.rel_append habout habout', ?_,
      fun h => by rw [hnone h, hnone' h]; rfl⟩
    rw [← List.append_assoc, ← hmid]

/-- What a host that fails has called the hook about. -/
theorem Fails.calls {target : Host} {before : List Host} {host : Host}
    {calls calls' : List HookCall} {e : BastionError}
    (h : r.Fails user target before host calls e calls') :
    ∃ consulted new, consulted.Sublist [host] ∧ (consulted ≠ [] → r.Admissible before host) ∧
      CallsAbout user consulted new ∧ calls' = calls ++ new ∧ (r.hook = none → new = []) := by
  by_cases hadm : r.Admissible before host
  · obtain ⟨consulted, new, hsub, habout, hcalls, hnone⟩ :=
      check_calls r user host calls
    refine ⟨consulted, new, hsub, fun _ => hadm, habout, ?_, hnone⟩
    cases h with
    | guard hnot => exact absurd hadm hnot
    | undecided _ hcheck | denied _ hcheck | undialable _ hcheck | unreadable _ hcheck
    | dangling _ hcheck =>
      rw [hcheck] at hcalls
      exact hcalls
  · cases h with
    | guard =>
      exact ⟨[], [], List.nil_sublist _, fun h => absurd rfl h, .nil, (List.append_nil _).symm,
        fun _ => rfl⟩
    | undecided h | denied h | undialable h | unreadable h | dangling h => exact absurd h hadm

/-- The hosts of a course are few, and the hook has been called about some of them, about each only
once, in the order of the walk. -/
theorem Course.visits {target : Host} {calls calls' : List HookCall} {hosts : List Host}
    {result : Except BastionError (List Spec)}
    (h : r.Course user target calls hosts result calls') :
    hosts.length ≤ r.maxHops + 1 ∧ ∃ consulted new, consulted.Sublist hosts ∧
      (consulted.map Host.id).Nodup ∧ CallsAbout user consulted new ∧ calls' = calls ++ new ∧
      (r.hook = none → new = []) := by
  rcases result with e | plan
  · obtain ⟨-, before, host, specs, mid, rfl, hpass, hfail⟩ := h
    obtain ⟨first, new, hfirst, habout, rfl, hnone⟩ := hpass.cleared.calls
    obtain ⟨last, later, hlast, hadm, habout', rfl, hnone'⟩ := hfail.calls
    refine ⟨?_, first ++ last, new ++ later, hfirst.append hlast, ?_,
      List.rel_append habout habout', (List.append_assoc _ _ _), fun h => by
        rw [hnone h, hnone' h]; rfl⟩
    · have := hpass.bounded
      rw [List.length_append, List.length_singleton]
      omega
    · have hfirst' := hfirst.map Host.id
      rw [List.map_append]
      refine List.Nodup.append (hpass.distinct.sublist hfirst')
        ((List.nodup_singleton host.id).sublist (hlast.map Host.id)) ?_
      intro id hid hid'
      have hne : last ≠ [] := fun h => by rw [h] at hid'; cases hid'
      have heq : id = host.id := List.mem_singleton.mp ((hlast.map Host.id).subset hid')
      exact (hadm hne).1 (heq ▸ hfirst'.subset hid)
  · obtain ⟨-, -, specs, hpass, rfl⟩ := h
    obtain ⟨consulted, new, hsub, habout, rfl, hnone⟩ := hpass.cleared.calls
    exact ⟨Nat.le_succ_of_le hpass.bounded, consulted, new, hsub,
      hpass.distinct.sublist (hsub.map Host.id), habout, rfl, hnone⟩

theorem exists_course (r : Resolver) (user : User) (target : Host) (calls : List HookCall) :
    ∃ hosts, r.Course user target calls hosts ((r.resolve user target).run calls).1
      ((r.resolve user target).run calls).2 :=
  walkAfter_course target calls r.maxHops [] [] target calls (.nil calls)
    ⟨rfl, List.isChain_singleton target⟩ (Nat.sub_le _ _)

/-- The outcome of resolving is that of the one walk along the hop links from the target: the
specifications of its hosts with the target last, or the error of the first step that fails. The walk
has at most one host more than plans may have, and calls the hook at most once about each host, in
the order of the walk. -/
theorem resolve_course (r : Resolver) (user : User) (target : Host) (calls : List HookCall) :
    (∀ plan calls', (r.resolve user target).run calls = (.ok plan, calls') ↔
      ∃ hosts, r.Arrives user target calls hosts plan calls') ∧
    (∀ e calls', (r.resolve user target).run calls = (.error e, calls') ↔
      ∃ hosts, r.Breaks user target calls hosts e calls') ∧
    ∃ hosts, r.Course user target calls hosts ((r.resolve user target).run calls).1
        ((r.resolve user target).run calls).2 ∧
      hosts.length ≤ r.maxHops + 1 ∧ ∃ consulted new, consulted.Sublist hosts ∧
        (consulted.map Host.id).Nodup ∧ CallsAbout user consulted new ∧
        ((r.resolve user target).run calls).2 = calls ++ new ∧ (r.hook = none → new = []) := by
  have hcourse := exists_course r user target calls
  refine ⟨fun plan calls' => ⟨fun hrun => ?_, ?_⟩, fun e calls' => ⟨fun hrun => ?_, ?_⟩, ?_⟩
  · rwa [hrun] at hcourse
  · rintro ⟨hosts, h⟩
    exact Course.run_eq (show r.Course user target calls hosts (.ok plan) calls' from h)
  · rwa [hrun] at hcourse
  · rintro ⟨hosts, h⟩
    exact Course.run_eq (show r.Course user target calls hosts (.error e) calls' from h)
  · obtain ⟨hosts, h⟩ := hcourse
    exact ⟨hosts, h, h.visits⟩

end Resolver

end Gatehouse.Dial
