/-!
# Failures of a relay

The two sides of a relayed channel and the ways in which passing something from one to the other can
fail.
-/

namespace Gatehouse.Relay

/-- A side of a relayed channel: the user's or the host's. -/
inductive Side where
  | inbound
  | outbound
deriving DecidableEq, Repr

namespace Side

/-- The other side. -/
def other : Side → Side
  | inbound => outbound
  | outbound => inbound

/-- The word for a side. -/
def word : Side → String
  | inbound => "inbound"
  | outbound => "outbound"

@[simp] theorem other_other (side : Side) : side.other.other = side := by
  cases side <;> rfl

end Side

/-- Why relaying fails. -/
inductive RelayError where
  /-- Nobody serves the channel of this side any more. -/
  | closed (side : Side)
  /-- Something could not be sent to this side. -/
  | send (side : Side) (reason : String)
  /-- The tasks of a relay ended without a result. -/
  | task (reason : String)
deriving DecidableEq, Repr

/-- The wording of a failure. -/
def RelayError.message : RelayError → String
  | .closed side => side.word ++ " channel closed"
  | .send side reason => "Send failed on " ++ side.word ++ " channel: " ++ reason
  | .task reason => "Relay task failed: " ++ reason

end Gatehouse.Relay
