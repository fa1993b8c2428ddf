import Gatehouse.Relay.Owner
import Gatehouse.Relay.Writer

/-!
# Rehearsing the channel to a host

The owner of a channel together with a host that follows a script. What the host sends waits until
the owner reads it; what the bastion sends is seen by the host at once. Nothing passes any more once
one of the two has closed the channel.
-/

namespace Gatehouse.Rehearsal

open Relay

/-- What a host says to a request that waits for an answer. -/
inductive HostAnswer where
  | accept
  | refuse
  /-- It says nothing. -/
  | silent
deriving DecidableEq

/-- What a host sees. -/
inductive HostEvent where
  | request (request : Request)
  | data (chunk : Chunk)
  | eof
  | close
deriving DecidableEq

/-- How the connection to a host stands. -/
inductive Wire where
  | running
  /-- One end has closed the channel. -/
  | closed
  /-- The connection is gone. -/
  | lost
deriving DecidableEq

/-- A channel to a host, with the calls to its owner that have been answered. -/
structure HostChannel where
  answer : String → HostAnswer
  owner : Owner := Owner.fresh
  /-- What the host has sent and the owner has not read, oldest first. -/
  inbox : List HostMessage := []
  wire : Wire := .running
  nextCall : CallId := 0
  seen : List HostEvent := []
  answered : List (CallId × Except RelayError Bool) := []
  closeAnswered : List (CallId × Except RelayError Unit) := []

namespace HostChannel

/-- The host sees something, if the channel still carries it. -/
def note (c : HostChannel) (event : HostEvent) : HostChannel :=
  if c.wire = .running then { c with seen := c.seen ++ [event] } else c

/-- What an effect of the owner leads to. -/
def effect (c : HostChannel) : OwnerEffect → HostChannel
  | .sent request wantReply =>
    if c.wire = .running then
      let c := c.note (.request request)
      if wantReply && request.wantsReply then
        match c.answer request.kind with
        | .accept => { c with inbox := c.inbox ++ [.success] }
        | .refuse => { c with inbox := c.inbox ++ [.failure] }
        | .silent => c
      else c
    else c
  | .closed =>
    let c := c.note .close
    { c with wire := if c.wire = .lost then .lost else .closed }
  | .answered call result => { c with answered := c.answered ++ [(call, result)] }
  | .closeAnswered call result => { c with closeAnswered := c.closeAnswered ++ [(call, result)] }

/-- The channel after a step of the owner, if the owner can take it. -/
def act? (c : HostChannel) (action : OwnerAction) : Option HostChannel := do
  let (owner, effects) ← c.owner.step? action
  return effects.foldl effect { c with owner }

/-- Lets the owner take at most `n` steps of its own. -/
def settleAtMost : (n : Nat) → HostChannel → HostChannel
  | 0, c => c
  | n + 1, c =>
    match c.act? .release with
    | some c => settleAtMost n c
    | none =>
      match c.inbox with
      | [] => c
      | message :: rest =>
        match { c with inbox := rest }.act? (.message message) with
        | some c => settleAtMost n c
        | none => c

/-- Lets the owner run until it has to wait. -/
def settle (c : HostChannel) : HostChannel :=
  settleAtMost (2 * c.inbox.length + 2) c

/-! ## The host -/

/-- Whether a message is an empty block of data, which is no message at all. -/
def isEmptyData : HostMessage → Bool
  | .data chunk => chunk.data.isEmpty
  | _ => false

/-- The host sends something. A host that closes the channel sees it closed from the other end
too. -/
def send (c : HostChannel) (message : HostMessage) : HostChannel :=
  if c.wire = .running && !isEmptyData message then
    let c := { c with inbox := c.inbox ++ [message] }
    if message = .close then
      let c := c.note .close
      settle { c with wire := .closed }
    else c.settle
  else c

/-- The connection is lost. -/
def disconnect (c : HostChannel) : HostChannel :=
  settle { c with inbox := c.inbox ++ [.close], wire := .lost }

/-! ## The bastion -/

/-- What putting a request on the wire comes to. -/
def sending (c : HostChannel) : Except String Unit :=
  if c.wire = .lost then .error "Channel send error" else .ok ()

/-- Sends a request; gives the result of the call unless it is still waiting. -/
def request (c : HostChannel) (request : Request) (wantReply : Bool) :
    HostChannel × Option (Except RelayError Bool) :=
  let call := c.nextCall
  let c := { c with nextCall := call + 1 }
  match c.act? (.command (.request call request wantReply) c.sending) with
  | some c =>
    let c := c.settle
    (c, c.answered.lookup call)
  | none => (c, some (.error (.closed .outbound)))

/-- Closes the channel. -/
def close (c : HostChannel) : HostChannel × Except RelayError Unit :=
  let call := c.nextCall
  let c := { c with nextCall := call + 1 }
  match c.act? (.command (.close call) c.sending) with
  | some c =>
    let c := c.settle
    (c, (c.closeAnswered.lookup call).getD (.ok ()))
  | none => (c, .ok ())

/-- Writes user data. -/
def write (c : HostChannel) (chunk : Chunk) : HostChannel × Except RelayError Unit :=
  if c.owner.dropsWrites || chunk.data.isEmpty then (c, .ok ())
  else if c.wire = .lost then (c, .error (.send .outbound "channel closed"))
  else (c.note (.data ((Lane.ofChunk chunk).carry chunk.data)), .ok ())

/-- Half-closes the channel. -/
def closeWrite (c : HostChannel) : HostChannel × Except RelayError Unit :=
  if c.owner.dropsWrites then (c, .ok ())
  else if c.wire = .lost then (c, .error (.send .outbound "channel closed"))
  else (c.note .eof, .ok ())

/-- Replaces the owner's queues. -/
def setDemux (c : HostChannel) (demux : Demux) : HostChannel :=
  { c with owner := { c.owner with demux } }

/-- Reads what the host has sent. -/
def read (c : HostChannel) : HostChannel × Taken Chunk :=
  let (data, taken) := c.owner.demux.data.take
  ((c.setDemux { c.owner.demux with data }).settle, taken)

/-- Reads all that is at hand, at most `n` blocks; gives also whether the end is reached. -/
def readAtMost : (n : Nat) → HostChannel → HostChannel × List Chunk × Bool
  | 0, c => (c, [], false)
  | n + 1, c =>
    match c.read with
    | (c, .item chunk) =>
      let (c, chunks, ended) := readAtMost n c
      (c, chunk :: chunks, ended)
    | (c, .ended) => (c, [], true)
    | (c, .waiting) => (c, [], false)

/-- Reads all that is at hand. -/
def readAll (c : HostChannel) : HostChannel × List Chunk × Bool :=
  readAtMost (c.owner.demux.data.items.length + c.inbox.length + 2) c

/-- Takes the host's next request. -/
def nextRequest (c : HostChannel) : HostChannel × Taken Incoming :=
  let (requests, taken) := c.owner.demux.requests.take
  ((c.setDemux { c.owner.demux with requests }).settle, taken)

/-- Nobody reads the host's data any more. -/
def dropReader (c : HostChannel) : HostChannel :=
  (c.setDemux { c.owner.demux with data := c.owner.demux.data.abandon }).settle

/-- Nobody takes the host's requests any more. -/
def dropRequests (c : HostChannel) : HostChannel :=
  (c.setDemux { c.owner.demux with requests := c.owner.demux.requests.abandon }).settle

end HostChannel

end Gatehouse.Rehearsal
