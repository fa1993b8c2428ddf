import Gatehouse.Access.Check
import Gatehouse.Key.Private
import Gatehouse.Relay.Error

/-!
# Refusals

Everything for which a channel is refused, a session fails or the bastion does not start, and the
text that users, session records and log lines show for it.
-/

namespace Gatehouse

open Text (quote)

/-- Why a connection or channel to a host fails on the way. -/
inductive TransportError where
  | os (e : OsError)
  /-- The peer ended the connection. -/
  | disconnected
  /-- The peer refused to open a channel. -/
  | prohibited
deriving DecidableEq

/-- The wording of a failure on the way. -/
def TransportError.message : TransportError → String
  | .os e => e.message
  | .disconnected => "Disconnected"
  | .prohibited => "Failed to open channel (AdministrativelyProhibited)"

/-- A cause of refusal or failure. -/
inductive BastionError where
  | invalidAddress (addr : String)
  | emptyChain
  | tunnel (address : String) (port : UInt16) (e : TransportError)
  | rejectedCredentials (hostName : String)
  | channel (e : TransportError)
  | io (e : OsError)
  | transport (e : TransportError)
  | missingKey (id : Id) (hostName : String)
  | missingServerKey (name : String)
  | key (e : Key.KeyFault)
  | hostKeyMismatch (hostName : String)
  | accessDenied
  | unknownHost (name : String)
  | hopCycle (target : String) (maxHops : Nat)
  | noAuthMethod (hostName : String)
  | acl (e : Access.AclError)
  | store (e : StoreError)
  | relay (e : Relay.RelayError)
deriving DecidableEq

namespace BastionError

/-- A number in decimal digits. -/
def number (n : Nat) : String :=
  String.ofList (Text.decimal n)

/-- The text of a key file's fault. -/
def keyText : Key.KeyFault → String
  | .unrecognised => "Could not read key"
  | .unreadable => "Unreadable key"

/-- The wording of a cause. -/
def message : BastionError → String
  | invalidAddress addr => "Connection failed: invalid host address " ++ quote addr
  | emptyChain => "Connection failed: empty hop chain"
  | tunnel address port e =>
    "Connection failed: Failed to open tunnel to " ++ address ++ ":" ++ number port.toNat ++ ": " ++
      e.message
  | rejectedCredentials name =>
    "Authentication failed: Authentication to " ++ quote name ++ " rejected"
  | channel e => "Channel error: " ++ e.message
  | io e => "IO error: " ++ e.message
  | transport e => "SSH protocol error: " ++ e.message
  | missingKey id name =>
    "Key error: SSH key #" ++ number id.toNat ++ " of host " ++ quote name ++ " not found"
  | missingServerKey name =>
    "Key error: no SSH key named " ++ quote name ++ " in the record store"
  | key e => "Key error: " ++ keyText e
  | hostKeyMismatch name => "host key mismatch for " ++ quote name
  | accessDenied => "you don't have permission to that host"
  | unknownHost name => "unknown host " ++ quote name
  | hopCycle target maxHops =>
    "hop chain of " ++ quote target ++ " loops or exceeds " ++ number maxHops ++ " hosts"
  | noAuthMethod name => "no valid authentication method for host " ++ quote name
  | acl e => e.message
  | store e => "Store error: " ++ e.message
  | relay e => e.message

end BastionError

end Gatehouse
