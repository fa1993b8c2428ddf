import Gatehouse.Access.Action
import Gatehouse.Json.Write
import Gatehouse.Text.Blank
import Gatehouse.Text.Utf8

/-!
# The access hook

An external command may be asked after the rules have decided. It is called with the decision and
with what it needs to know of the user and the host, never with a secret. If what it prints is one
of the two action words, that word is the decision; in every other case the decision stands.
-/

namespace Gatehouse.Access

/-! ## What the hook is told -/

/-- What the hook is told of the user. -/
structure HookUser where
  id : Id
  name : String
  email : String
  roles : List String
  groupIds : List Id

instance : Record HookUser where
  fields := [
    ⟨"id", .word64, none⟩,
    ⟨"name", .text, none⟩,
    ⟨"email", .text, none⟩,
    ⟨"roles", .list .text, none⟩,
    ⟨"group_ids", .list .word64, none⟩]
  toRow u := (u.id, u.name, u.email, u.roles, u.groupIds, ())
  ofRow := fun (id, name, email, roles, groupIds, _) => { id, name, email, roles, groupIds }

/-- What the hook is told of the host. -/
structure HookHost where
  id : Id
  name : String
  addr : String
  user : String
  hopId : Option Id
  groupIds : List Id

instance : Record HookHost where
  fields := [
    ⟨"id", .word64, none⟩,
    ⟨"name", .text, none⟩,
    ⟨"addr", .text, none⟩,
    ⟨"user", .text, none⟩,
    ⟨"hop_id", .optional .word64, none⟩,
    ⟨"group_ids", .list .word64, none⟩]
  toRow h := (h.id, h.name, h.addr, h.user, h.hopId, h.groupIds, ())
  ofRow := fun (id, name, addr, user, hopId, groupIds, _) =>
    { id, name, addr, user, hopId, groupIds }

/-- The part of a user record that the hook is told. -/
def HookUser.of (u : User) : HookUser :=
  { id := u.id, name := u.name, email := u.email, roles := u.roles, groupIds := u.groupIds }

/-- The part of a host record that the hook is told. -/
def HookHost.of (h : Host) : HookHost :=
  { id := h.id, name := h.name, addr := h.addr, user := h.user, hopId := h.hopId,
    groupIds := h.groupIds }

/-- The three arguments of one run of the hook. -/
structure HookCall where
  action : String
  user : String
  host : String
deriving DecidableEq

/-- The arguments for a decision about a user and a host. -/
def HookCall.of (action : Action) (user : User) (host : Host) : HookCall :=
  { action := action.word
    user := Json.render (HookUser.of user)
    host := Json.render (HookHost.of host) }

/-! ## What comes back -/

/-- How a run of the hook ends. -/
inductive HookRun where
  /-- The command could not be started, or took too long. -/
  | failed
  /-- The command ended with this status after printing this. -/
  | finished (status : Nat) (printed : Bytes)

/-- The behaviour of a hook command: how each run ends, given the runs before it. -/
structure Hook where
  run : (earlier : List HookCall) → HookCall → HookRun

/-- The decision that a run prints, if it prints one. -/
def HookRun.decision? : HookRun → Option Action
  | .failed => none
  | .finished _ printed =>
    match Text.trim (Text.ofUtf8Lossy printed) with
    | "allow" => some .allow
    | "deny" => some .deny
    | _ => none

/-- A computation that may run the hook. It keeps the calls made so far, in order. -/
abbrev HookM := StateM (List HookCall)

/-- Asks the hook about a decision. -/
def Hook.consult (hook : Hook) (action : Action) (user : User) (host : Host) : HookM Action := do
  let earlier ← get
  let call := HookCall.of action user host
  set (earlier ++ [call])
  return (hook.run earlier call).decision?.getD action

/-- Asks the hook if there is one. -/
def consultHook (hook : Option Hook) (action : Action) (user : User) (host : Host) :
    HookM Action :=
  match hook with
  | none => pure action
  | some hook => hook.consult action user host

end Gatehouse.Access
