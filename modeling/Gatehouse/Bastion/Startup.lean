import Gatehouse.Bastion.Identity
import Gatehouse.Dial.Address
import Gatehouse.Time.Instant

/-!
# Starting

Before the bastion serves, it opens the record store, ends the sessions that a previous run has left
active, loads its key, and takes hold of its listening address. The first failure stops it; what was
done before stays done.
-/

namespace Gatehouse.Bastion

/-- What is recorded of sessions that a previous run has left active. -/
def haltedReason : String :=
  "sshbastion was halted while the connection was still active"

/-- Reads a listening address: everything up to the last colon is the host, the rest the port. -/
def listenAddress (text : String) : Except OsError (String × UInt16) :=
  let chars := text.toList.reverse
  let port := chars.takeWhile (· ≠ ':')
  match chars.drop port.length with
  | [] => .error (.badAddress "invalid socket address")
  | _ :: host =>
    match Dial.port? port.reverse with
    | none => .error (.badAddress "invalid port value")
    | some port => .ok (String.ofList host.reverse, port)

/-- What starting has come to. -/
structure Started where
  /-- The store, if it could be opened. -/
  store : Option Store
  result : Except BastionError Key.PrivateKey

/-- Starts with what opening the store came to. `listen` says what binding an address comes to. -/
def start (box : SecretBox) (now : Time.Instant) (opened : Except OsError Store)
    (bindAddress : String) (listen : String × UInt16 → Except OsError Unit) : Started :=
  match opened with
  | .error e => { store := none, result := .error (.store (.unopened e)) }
  | .ok s =>
    match s.closeActiveSessions now haltedReason with
    | .error e => { store := some s, result := .error (.store e) }
    | .ok (s, _) =>
      let result := do
        let key ← loadServerKey s box
        match listenAddress bindAddress with
        | .error e => throw (.io e)
        | .ok address =>
          match listen address with
          | .error e => throw (.io e)
          | .ok () => return key
      { store := some s, result }

end Gatehouse.Bastion
