import Gatehouse.Dial.Spec

/-!
# Hop chains

A host may have to be reached through another one, and that through a third. Resolving a target
walks these links back towards the bastion. Every host on the way has to be open to the user, so
nothing is dialed unless all of it may be.
-/

namespace Gatehouse.Dial

/-- What resolving depends on besides the user and the target. -/
structure Resolver where
  store : Store
  box : SecretBox
  hook : Option Access.Hook
  /-- The greatest number of hosts in a chain. -/
  maxHops : Nat

namespace Resolver

/-- The specification for one host of a chain, if the user may reach it. -/
def admitHop (r : Resolver) (user : User) (host : Host) :
    Access.HookM (Except BastionError Spec) := do
  match ← Access.check r.store r.hook user host with
  | .error e => return .error (.acl e)
  | .ok .deny => return .error .accessDenied
  | .ok .allow => return Spec.ofHost r.store r.box host

/-- Continues a walk at a host. `room` is the number of hosts that the plan may still take, and
`visited` has the hosts it goes through already. -/
def walk (r : Resolver) (user : User) (target : String) :
    (room : Nat) → (visited : List Id) → (plan : List Spec) → Host →
      Access.HookM (Except BastionError (List Spec))
  | 0, _, _, _ => return .error (.hopCycle target r.maxHops)
  | room + 1, visited, plan, host => do
    if host.id ∈ visited then return .error (.hopCycle target r.maxHops)
    match ← r.admitHop user host with
    | .error e => return .error e
    | .ok spec =>
      match host.hopId with
      | none => return .ok (spec :: plan)
      | some id =>
        match r.store.host id with
        | .error e => return .error (.store e)
        | .ok none => return .error (.unknownHost ("#" ++ BastionError.number id.toNat))
        | .ok (some hop) => r.walk user target room (host.id :: visited) (spec :: plan) hop

/-- The dial plan for a target: the host nearest to the bastion first, the target last. -/
def resolve (r : Resolver) (user : User) (target : Host) :
    Access.HookM (Except BastionError (List Spec)) :=
  r.walk user target.name r.maxHops [] [] target

end Resolver

end Gatehouse.Dial
