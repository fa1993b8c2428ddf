import Gatehouse.Relay.Queue
import Gatehouse.Relay.Request

/-!
# Distributing what a host sends

What a host sends on its channel goes to one of two queues, one for data and one for requests. A
message that does not fit is held, and while one is held nothing more is accepted, which leaves the
host to wait.
-/

namespace Gatehouse.Relay

/-- A message for one of the queues. -/
inductive Delivery where
  | data (chunk : Chunk)
  | request (request : Incoming)
deriving DecidableEq

/-- The two queues, and the message that did not fit. -/
structure Demux where
  data : Queue Chunk
  requests : Queue Incoming
  held : Option Delivery := none
deriving DecidableEq

namespace Demux

/-- How many blocks of data wait at most. -/
def dataDepth : Nat := 64

/-- How many requests wait at most. -/
def requestDepth : Nat := 16

/-- Two empty queues of the given depths. -/
def ofDepths (dataDepth requestDepth : Nat) : Demux :=
  { data := { depth := dataDepth }, requests := { depth := requestDepth } }

/-- The queues of a channel that has just been opened. -/
def fresh : Demux :=
  ofDepths dataDepth requestDepth

/-- Whether a message is held. -/
def isBlocked (d : Demux) : Bool :=
  d.held.isSome

/-- Accepts a message, which takes the place of the held one. -/
def push (d : Demux) : Delivery → Demux
  | .data chunk =>
    let (data, rest) := d.data.push chunk
    { d with data, held := rest.map .data }
  | .request request =>
    let (requests, rest) := d.requests.push request
    { d with requests, held := rest.map .request }

/-- Whether the held message would fit now. -/
def hasRoom (d : Demux) : Bool :=
  match d.held with
  | some (.data _) => d.data.hasRoom
  | some (.request _) => d.requests.hasRoom
  | none => false

/-- Tries again to put the held message into its queue. -/
def release (d : Demux) : Demux :=
  match d.held with
  | some delivery => push { d with held := none } delivery
  | none => d

/-- No more data will come. -/
def endData (d : Demux) : Demux :=
  { d with data := d.data.finish }

/-- Nothing more will come. -/
def endAll (d : Demux) : Demux :=
  { data := d.data.finish, requests := d.requests.finish, held := none }

end Demux

end Gatehouse.Relay
