import Gatehouse.Relay.Owner

/-!
# The owner and the readers of its queues

The owner distributes what the host sends while two readers take from its queues, and may leave, at any
moment. That there is room for a held message and that the message is put into its queue are two steps, and
readers may come in between. Queues may have any depth.

The state keeps what the owner has heard from the host and what the readers have taken. The owner does not
end here: when it does, nobody puts anything into the queues any more.
-/

namespace Gatehouse.Relay

/-- The owner and the readers at some moment. -/
structure Distribution where
  owner : Owner
  /-- There was room for the held message, and the owner puts it into its queue next. -/
  releasing : Bool := false
  /-- What the owner has heard from the host, oldest first. -/
  heard : List HostMessage := []
  /-- What was read from the data queue, oldest first. -/
  dataTaken : List Chunk := []
  /-- What was read from the request queue, oldest first. -/
  requestsTaken : List Incoming := []

/-- A step of the owner or of a reader. -/
inductive DistributionAction where
  /-- The owner hears a message from the host. -/
  | hear (message : HostMessage)
  /-- The owner carries out a command; sending comes to this. -/
  | command (command : Command) (sending : Except String Unit)
  /-- The owner finds that there is room for the held message. -/
  | findRoom
  /-- The owner puts the held message into its queue. -/
  | release
  /-- A block of data is read. -/
  | takeData
  /-- A request is taken. -/
  | takeRequest
  /-- Nobody reads the data any more. -/
  | leaveData
  /-- Nobody takes the requests any more. -/
  | leaveRequests

namespace Distribution

/-- Empty queues of the given depths, and a host that has sent nothing. -/
def start (dataDepth requestDepth : Nat) : Distribution :=
  { owner := { demux := .ofDepths dataDepth requestDepth } }

/-- A reader changes the queues. -/
def withDemux (s : Distribution) (demux : Demux) : Distribution :=
  { s with owner := { s.owner with demux } }

/-- A step that the owner takes while it waits for the next thing to do. -/
def own? (s : Distribution) (action : OwnerAction) : Option Distribution :=
  if s.releasing then none
  else (s.owner.step? action).map fun (owner, _) => { s with owner }

/-- One step, where it can be taken. -/
def step? (s : Distribution) : DistributionAction → Option Distribution
  | .hear message =>
    (s.own? (.message message)).map fun s => { s with heard := s.heard ++ [message] }
  | .command command sending => s.own? (.command command sending)
  | .findRoom =>
    if !s.releasing && s.owner.demux.isBlocked && s.owner.demux.hasRoom then
      some { s with releasing := true }
    else none
  | .release =>
    if s.releasing then
      some { s.withDemux s.owner.demux.release with releasing := false }
    else none
  | .takeData =>
    match s.owner.demux.data.take with
    | (data, .item chunk) =>
      some { s.withDemux { s.owner.demux with data } with dataTaken := s.dataTaken ++ [chunk] }
    | _ => none
  | .takeRequest =>
    match s.owner.demux.requests.take with
    | (requests, .item request) =>
      some { s.withDemux { s.owner.demux with requests } with
        requestsTaken := s.requestsTaken ++ [request] }
    | _ => none
  | .leaveData => some (s.withDemux { s.owner.demux with data := s.owner.demux.data.abandon })
  | .leaveRequests =>
    some (s.withDemux { s.owner.demux with requests := s.owner.demux.requests.abandon })

/-- The state after some steps, where all of them can be taken. -/
def run? (s : Distribution) : List DistributionAction → Option Distribution
  | [] => some s
  | action :: more => do (← s.step? action).run? more

end Distribution

end Gatehouse.Relay
