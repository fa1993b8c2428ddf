import Gatehouse.Relay.Demux
import Gatehouse.Relay.Error

/-!
# The owner of a host's channel

One task owns the channel to the host. It distributes what the host sends, puts requests on the wire,
and matches the host's answers with the requests that wait for one, in order. Data and the end of
data do not pass through it, so that it keeps reading while the host is slow to read.
-/

namespace Gatehouse.Relay

/-- What a host sends on its channel. -/
inductive HostMessage where
  | data (chunk : Chunk)
  | eof
  | success
  | failure
  | exitStatus (status : UInt32)
  | exitSignal (name : String) (coreDumped : Bool) (message language : String)
  /-- The channel, or the connection under it, is closed. -/
  | close
  /-- Something that means nothing to a relay. -/
  | other
deriving DecidableEq

/-- A call to the owner, by which the answer finds its caller. -/
abbrev CallId := Nat

/-- What the owner is asked to do. -/
inductive Command where
  | request (call : CallId) (request : Request) (wantReply : Bool)
  | close (call : CallId)
deriving DecidableEq

/-- What the owner does to the world. -/
inductive OwnerEffect where
  /-- A request is put on the wire. -/
  | sent (request : Request) (wantReply : Bool)
  /-- The channel is closed. -/
  | closed
  /-- A request call is answered. -/
  | answered (call : CallId) (result : Except RelayError Bool)
  /-- A close call is answered. -/
  | closeAnswered (call : CallId) (result : Except RelayError Unit)

/-- The owner's state. -/
structure Owner where
  demux : Demux
  /-- The calls that wait for the host's answer, oldest first. -/
  pending : List CallId := []
  remoteClosed : Bool := false
  localClosed : Bool := false
  /-- Nobody is left who could ask for anything. -/
  ended : Bool := false
deriving DecidableEq

/-- What the owner may do next. The outcome of sending is the connection's choice. -/
inductive OwnerAction where
  /-- The held message fits again. -/
  | release
  | message (m : HostMessage)
  | command (c : Command) (sending : Except String Unit)
  /-- All callers are gone. -/
  | finish

namespace Owner

/-- The owner of a channel that has just been opened. -/
def fresh : Owner := { demux := Demux.fresh }

/-- Whether one of the ends has closed the channel. -/
def isClosed (o : Owner) : Bool :=
  o.remoteClosed || o.localClosed

/-- Answers the oldest waiting call, if there is one. -/
def verdict (o : Owner) (accepted : Bool) : Owner × List OwnerEffect :=
  match o.pending with
  | [] => (o, [])
  | call :: rest => ({ o with pending := rest }, [.answered call (.ok accepted)])

/-- Takes a message from the host. -/
def receive (o : Owner) : HostMessage → Owner × List OwnerEffect
  | .data chunk => ({ o with demux := o.demux.push (.data chunk) }, [])
  | .eof => ({ o with demux := o.demux.endData }, [])
  | .success => o.verdict true
  | .failure => o.verdict false
  | .exitStatus status =>
    ({ o with demux := o.demux.push (.request (.ofRequest (.exitStatus status))) }, [])
  | .exitSignal name coreDumped message language =>
    ({ o with demux :=
        o.demux.push (.request (.ofRequest (.exitSignal name coreDumped message language))) }, [])
  | .close =>
    ({ o with remoteClosed := true, demux := o.demux.endAll, pending := [] },
      o.pending.map fun call => .answered call (.ok false))
  | .other => (o, [])

/-- Carries out a command. -/
def obey (o : Owner) (sending : Except String Unit) : Command → Owner × List OwnerEffect
  | .request call request wantReply =>
    if o.isClosed || !request.isForServer then (o, [.answered call (.ok false)])
    else match sending with
      | .error reason => (o, [.answered call (.error (.send .outbound reason))])
      | .ok () =>
        if wantReply && request.wantsReply then
          ({ o with pending := o.pending ++ [call] }, [.sent request wantReply])
        else (o, [.sent request wantReply, .answered call (.ok false)])
  | .close call =>
    if o.isClosed then (o, [.closeAnswered call (.ok ())])
    else
      let result := match sending with
        | .ok () => .ok ()
        | .error reason => .error (.send .outbound reason)
      ({ o with localClosed := true }, [.closed, .closeAnswered call result])

/-- One step of the owner, where it can take it. While a message is held, and after the host has
closed the channel, it does not read from the host. -/
def step? (o : Owner) : OwnerAction → Option (Owner × List OwnerEffect)
  | .release =>
    if !o.ended && o.demux.isBlocked && o.demux.hasRoom then
      some ({ o with demux := o.demux.release }, [])
    else none
  | .message m =>
    if !o.ended && !o.remoteClosed && !o.demux.isBlocked then some (o.receive m) else none
  | .command c sending => if o.ended then none else some (o.obey sending c)
  | .finish =>
    if o.ended then none
    else
      some ({ o with ended := true, localClosed := true, demux := o.demux.endAll, pending := [] },
        (if o.isClosed then [] else [.closed]) ++
          o.pending.map fun call => .answered call (.error (.closed .outbound)))

/-- Whether writes to the host are dropped. -/
def dropsWrites (o : Owner) : Bool :=
  o.isClosed || o.ended

end Owner

end Gatehouse.Relay
