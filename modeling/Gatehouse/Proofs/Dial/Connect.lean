import Gatehouse.Dial.Connect
import Gatehouse.Proofs.Dial.Pin
import Gatehouse.Proofs.Store.Ordered

/-!
# What dialing leaves behind

`rewritten_connect`: whether it succeeds or not, dialing writes nothing but hosts.
`connect_eq_ok`: after a success all hosts of the plan are connected, in its order, and none has been
disconnected.

Proof. By induction on the hosts that are still to be dialed, for any hosts that are connected already.
-/

namespace Gatehouse.Dial

open Store (Rewritten)

variable {s s' s'' : Store} {network : Nat → Peer}

theorem rewritten_check {t t' : Trust} {presented : Bytes}
    (h : t.check s presented = .ok (t', s')) : Rewritten [.hosts] s s' := by
  rcases Trust.check_cases h with ⟨-, -, -, rfl⟩ | ⟨-, -, hpin⟩
  · exact .same
  · exact Store.rewritten_pinHostKey hpin

theorem rewritten_greet {peer : Peer} {spec : Spec} {key : Bytes}
    (h : greet peer spec s = .ok (key, s')) : Rewritten [.hosts] s s' := by
  unfold greet at h
  rcases hkey : peer.key with e | presented
  · rw [hkey] at h
    cases h
  · rw [hkey] at h
    obtain ⟨⟨t', s₁⟩, hcheck, heq⟩ := exists_of_map_eq_ok h
    cases heq
    exact rewritten_check hcheck

/-- Logging in hangs nobody up. -/
theorem disconnected_notMem_logIn {peer : Peer} {hop other : Nat} {credentials : List Credential} :
    .disconnected other ∉ (logIn peer hop credentials).1 := by
  induction credentials with
  | nil => exact List.not_mem_nil
  | cons credential more ih =>
    rw [logIn]
    split
    · simp
    all_goals simpa using ih

/-- What is said of a list of hosts that are dialed: what is written, and who is connected in the end. -/
structure Connects (s : Store) (hop : Nat) (connected : List Nat) (plan : List Spec) (d : Dialed) :
    Prop where
  rewritten : Rewritten [.hosts] s d.store
  result : ∀ hops, d.result = .ok hops →
    hops = connected.reverse ++ List.range' hop plan.length ∧
      ∀ other, .disconnected other ∉ d.events

theorem connects_connectFrom {plan : List Spec} : ∀ {s : Store} {hop : Nat} {connected : List Nat},
    Connects s hop connected plan (connectFrom network s hop connected plan) := by
  induction plan with
  | nil =>
    intro s hop connected
    refine ⟨.same, fun hops h => ?_⟩
    cases h
    exact ⟨by simp, fun other => List.not_mem_nil⟩
  | cons spec later ih =>
    intro s hop connected
    rw [connectFrom]
    rcases hgreet : greet (network hop) spec s with e | ⟨key, s₁⟩
    · exact ⟨.same, nofun⟩
    have hfirst := rewritten_greet hgreet
    -- The rest of the plan is dialed with this host connected.
    have hlater (events : List DialEvent) (hevents : ∀ other, .disconnected other ∉ events) :
        Connects s hop connected (spec :: later)
          ((connectFrom network s₁ (hop + 1) (hop :: connected) later).after events) := by
      have hrest : Connects s₁ (hop + 1) (hop :: connected) later
          (connectFrom network s₁ (hop + 1) (hop :: connected) later) := ih
      refine ⟨hfirst.trans hrest.rewritten, fun hops h => ?_⟩
      obtain ⟨hhops, hnone⟩ := hrest.result hops h
      refine ⟨?_, fun other hmem => ?_⟩
      · rw [hhops, List.reverse_cons, List.append_assoc, List.length_cons, List.range'_succ]
        rfl
      · exact (List.mem_append.mp hmem).elim (hevents other) (hnone other)
    have hattempts (other : Nat) : .disconnected other ∉
        .contacted hop :: .trusted hop key :: (logIn (network hop) hop spec.credentials).1 := by
      simp [disconnected_notMem_logIn]
    dsimp only
    split_ifs
    · exact ⟨hfirst, nofun⟩
    · split
      · exact ⟨hfirst, nofun⟩
      · refine hlater _ fun other hmem => ?_
        rcases List.mem_append.mp hmem with hmem | hmem
        · exact hattempts other hmem
        · simp at hmem
      · exact hlater _ hattempts

theorem rewritten_connect {plan : List Spec} : Rewritten [.hosts] s (connect network s plan).store := by
  unfold connect
  split_ifs
  · exact .same
  · exact connects_connectFrom.rewritten

theorem connect_eq_ok {plan : List Spec} {hops : List Nat}
    (h : (connect network s plan).result = .ok hops) :
    hops = List.range plan.length ∧
      ∀ other, .disconnected other ∉ (connect network s plan).events := by
  unfold connect at h ⊢
  by_cases hempty : plan.isEmpty = true
  · rw [if_pos hempty] at h
    cases h
  · rw [if_neg hempty] at h ⊢
    rw [List.range_eq_range']
    exact connects_connectFrom.result hops h

end Gatehouse.Dial
