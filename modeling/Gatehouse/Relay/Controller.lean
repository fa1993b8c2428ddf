import Gatehouse.Relay.Channel

/-!
# The owner and its callers

Any number of callers may ask the owner of a host's channel for something at the same time. A call waits
for room in a bounded queue, from which the owner takes one command after the other, and then for its
answer. Who still waits when the owner ends, or asks after that, finds the channel closed.

Each step is taken by a caller, by the owner, or by a reader of the queues that the owner fills. Nothing is
assumed about when the owner ends. The state keeps what has happened.
-/

namespace Gatehouse.Relay

/-- The call that a command comes from. -/
def Command.call : Command → CallId
  | .request call .. | .close call => call

@[simp] theorem Command.call_request (call : CallId) (request : Request) (wantReply : Bool) :
    (Command.request call request wantReply).call = call := rfl

@[simp] theorem Command.call_close (call : CallId) : (Command.close call).call = call := rfl

/-- What happens between the callers, the owner and the host. -/
inductive OwnerEvent where
  /-- A caller asks for something. -/
  | called (command : Command)
  /-- The owner takes a command; if anything is sent for it, sending comes to this. -/
  | taken (command : Command) (sending : Except String Unit)
  /-- The owner reads what the host has sent. -/
  | heard (message : HostMessage)
  /-- The request of a call is put on the wire. Some kinds ask for no reply, whatever the caller wants. -/
  | sent (call : CallId) (incoming : Incoming)
  /-- The channel to the host is closed. -/
  | closed
  /-- A request call is answered. -/
  | answered (call : CallId) (result : Except RelayError Bool)
  /-- A close call is answered. -/
  | closeAnswered (call : CallId) (result : Except RelayError Unit)
  /-- The owner ends. -/
  | ended

/-- What happens by an effect that the owner has while it serves a call. -/
def OwnerEvent.ofEffect (call : CallId) : OwnerEffect → OwnerEvent
  | .sent request wantReply => .sent call { request, wantReply := wantReply && request.wantsReply }
  | .closed => .closed
  | .answered call result => .answered call result
  | .closeAnswered call result => .closeAnswered call result

/-- The answer to who finds that the owner has ended. A channel without an owner is closed already. -/
def OwnerEvent.forsaken : Command → OwnerEvent
  | .request call .. => .answered call (.error (.closed .outbound))
  | .close call => .closeAnswered call (.ok ())

/-- The owner and its callers at some moment. -/
structure Controller where
  owner : Owner := .fresh
  /-- What is asked by those who wait for room in the queue. -/
  calling : List Command := []
  /-- The commands that the owner has not taken, oldest first. -/
  commands : List Command := []
  nextCall : CallId := 0
  /-- The call that the owner serves, or has served last. -/
  serving : CallId := 0
  /-- What has happened, oldest first. -/
  trace : List OwnerEvent := []

/-- A step of a caller, of the owner or of a reader. -/
inductive ControllerAction where
  /-- Somebody calls for a request. -/
  | request (request : Request) (wantReply : Bool)
  /-- Somebody calls for closing the channel. -/
  | close
  /-- A command enters the queue. -/
  | enter (command : Command)
  /-- The owner puts the held message into its queue. -/
  | release
  /-- The owner reads what the host has sent. -/
  | read (message : HostMessage)
  /-- The owner takes a command; sending comes to this. -/
  | obey (sending : Except String Unit)
  /-- The owner ends. -/
  | finish
  /-- The host's data is read. -/
  | takeData
  /-- A request of the host is taken. -/
  | takeRequest
  /-- Nobody reads the host's data any more. -/
  | leaveData
  /-- Nobody takes the host's requests any more. -/
  | leaveRequests

namespace Controller

/-- Somebody calls. -/
def call (c : Controller) (command : Command) : Controller :=
  if c.owner.ended then
    { c with
      nextCall := c.nextCall + 1
      trace := c.trace ++ [.called command, .forsaken command] }
  else
    { c with
      nextCall := c.nextCall + 1
      calling := c.calling ++ [command]
      trace := c.trace ++ [.called command] }

/-- A step of the owner, which begins with an event or happens in silence. -/
def own? (c : Controller) (action : OwnerAction) (event : Option OwnerEvent) : Option Controller := do
  let (owner, effects) ← c.owner.step? action
  return { c with
    owner
    trace := c.trace ++ event.toList ++ effects.map (.ofEffect c.serving) }

/-- Everybody who waits for the owner to take a command finds that it has ended. -/
def forsake (c : Controller) : Controller :=
  { c with
    calling := []
    commands := []
    trace := c.trace ++ (c.commands ++ c.calling).map .forsaken }

/-- A reader changes the owner's queues. -/
def withDemux (c : Controller) (demux : Demux) : Controller :=
  { c with owner := { c.owner with demux } }

/-- One step, where it can be taken. -/
def step? (c : Controller) : ControllerAction → Option Controller
  | .request request wantReply => some (c.call (.request c.nextCall request wantReply))
  | .close => some (c.call (.close c.nextCall))
  | .enter command =>
    if command ∈ c.calling ∧ c.commands.length < Channel.commandDepth then
      some { c with calling := c.calling.erase command, commands := c.commands ++ [command] }
    else none
  | .release => c.own? .release none
  | .read message => c.own? (.message message) (some (.heard message))
  | .obey sending =>
    match c.commands with
    | command :: commands =>
      { c with commands, serving := command.call }.own? (.command command sending)
        (some (.taken command sending))
    | [] => none
  | .finish => do return (← c.own? .finish (some .ended)).forsake
  | .takeData =>
    some (c.withDemux { c.owner.demux with data := c.owner.demux.data.take.1 })
  | .takeRequest =>
    some (c.withDemux { c.owner.demux with requests := c.owner.demux.requests.take.1 })
  | .leaveData =>
    some (c.withDemux { c.owner.demux with data := c.owner.demux.data.abandon })
  | .leaveRequests =>
    some (c.withDemux { c.owner.demux with requests := c.owner.demux.requests.abandon })

/-- The controller after some steps, where all of them can be taken. -/
def run? (c : Controller) : List ControllerAction → Option Controller
  | [] => some c
  | action :: more => do (← c.step? action).run? more

end Controller

end Gatehouse.Relay
