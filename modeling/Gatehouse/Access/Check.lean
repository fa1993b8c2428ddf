import Gatehouse.Access.Hook
import Gatehouse.Store.Queries

/-!
# The access check

The decision for a user and a host, from the groups that the store has for them and from the hook.
The groups are read in several steps; `decide` takes the store as each step finds it, and `check` is
the case in which it does not change in between.
-/

namespace Gatehouse.Access

/-- Why there is no decision. -/
inductive AclError where
  | invalid (e : InvalidAction)
  | store (e : StoreError)
deriving DecidableEq

/-- The wording of a failure. -/
def AclError.message : AclError → String
  | .invalid e => e.message
  | .store e => "Store error: " ++ e.message

/-- The decision of the rules, each group being read at the moment after the one before it. -/
def decide (moment : Nat → Store) (user : User) (host : Host) : Except AclError Action :=
  match Store.loadGroups moment 0 .userGroups user.groupIds with
  | .error e => .error (.store e)
  | .ok (userGroups, next) =>
    match Store.loadGroups moment next .hostGroups host.groupIds with
    | .error e => .error (.store e)
    | .ok (hostGroups, _) => (resolve userGroups hostGroups).mapError .invalid

/-- The decision of the rules and the hook. -/
def check (s : Store) (hook : Option Hook) (user : User) (host : Host) :
    HookM (Except AclError Action) :=
  match decide (fun _ => s) user host with
  | .error e => pure (.error e)
  | .ok action => do return .ok (← consultHook hook action user host)

end Gatehouse.Access
