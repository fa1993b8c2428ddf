import Gatehouse.Base64
import Gatehouse.Bastion.Error
import Gatehouse.Crypto.Sha256

/-!
# Trust in host keys

Trust on first use: the first key that a host presents is pinned in the store, and from then on the
host has to present the same key. Each connection decides by the pin it has read.
-/

namespace Gatehouse.Dial

/-- How a presented key compares with a pin. -/
inductive Verdict where
  | verified
  /-- Nothing is pinned. -/
  | unknown
  | changed
deriving DecidableEq, Repr

/-- The word for a verdict. -/
def Verdict.word : Verdict → String
  | .verified => "verified"
  | .unknown => "unknown"
  | .changed => "changed"

/-- Compares a presented key with a pin. -/
def verifyPinned (pinned presented : Bytes) : Verdict :=
  if pinned.isEmpty then .unknown
  else if pinned = presented then .verified
  else .changed

/-- The fingerprint of a key. -/
def fingerprint (key : Bytes) : String :=
  "SHA256:" ++ Base64.encodeUnpadded (Crypto.Sha256.digest key)

/-- What one connection knows of a host's key. -/
structure Trust where
  hostId : Id
  hostName : String
  pinned : Bytes
deriving DecidableEq

namespace Trust

/-- The trust in a host as it has been read. -/
def ofHost (host : Host) : Trust :=
  { hostId := host.id, hostName := host.name, pinned := host.hostKey }

/-- Accepts or refuses a presented key. An accepted first key is pinned. -/
def check (t : Trust) (s : Store) (presented : Bytes) : Except BastionError (Trust × Store) :=
  match verifyPinned t.pinned presented with
  | .verified => .ok (t, s)
  | .unknown =>
    match s.pinHostKey t.hostId presented with
    | .error e => .error (.store e)
    | .ok s => .ok ({ t with pinned := presented }, s)
  | .changed => .error (.hostKeyMismatch t.hostName)

end Trust

end Gatehouse.Dial
