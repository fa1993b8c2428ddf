import Gatehouse.Recording.Streams
import Gatehouse.Relay.Feed
import Gatehouse.Relay.Owner
import Gatehouse.Relay.Pipe
import Gatehouse.Relay.User
import Gatehouse.Relay.Writer

/-!
# A relayed channel as a whole

All that takes part in relaying one channel: the loop of the user's connection with the handler it
calls, the queues from the handler to the pipe, the pipe with its four tasks, the owner of the
channel to the host, the recording, and what is under way between them.

The loop of the user's connection calls the handler for one thing at a time. It sends what the relay
has for the user only between such calls; until then that waits in a bounded outbox.

Each step is taken by one of the parts. What the user, the host and the disk do is chosen by the
step; everything else follows from the state. The state keeps what has passed on each side.
-/

namespace Gatehouse.Relay

open Recording (Log SessionStreams Stream WriteOutcome)
open Time (Unix)

/-! ## The parts -/

/-- What a user sends on a channel. -/
inductive UserInput where
  | data (chunk : Chunk)
  | eof
  | request (request : Request)
  | close
deriving DecidableEq

/-- What the handler is doing for the user's connection. -/
inductive Callback where
  | idle
  /-- It waits for room for a block of data. -/
  | offering (chunk : Chunk)
  /-- It waits for room for a request. -/
  | asking (asker : AskId) (request : Request)
  /-- It waits for a verdict. -/
  | awaiting (asker : AskId)
deriving DecidableEq

/-- What has passed on a channel. -/
structure Passed where
  /-- What the user has sent, and the handler was called for. -/
  fromUser : List UserInput := []
  /-- What the user has received. -/
  toUser : List UserMessage := []
  /-- What the host has sent. -/
  fromHost : List HostMessage := []
  /-- The data that the host has received. -/
  dataToHost : List Chunk := []
  /-- How often the channel to the host was half-closed. -/
  halfCloses : Nat := 0
  /-- The requests that were put on the wire to the host. -/
  requestsToHost : List Incoming := []
  /-- How often the channel to the host was closed. -/
  closes : Nat := 0
  /-- What the handler's requests came to. -/
  verdicts : List (AskId × Option Bool) := []
deriving DecidableEq

/-- A relayed channel at some moment. -/
structure Channel where
  streams : SessionStreams := {}
  callback : Callback := .idle
  nextAsker : AskId := 0
  /-- What the relay has sent to the user and the connection has not. -/
  outbox : List UserMessage := []
  link : UserLink := .running
  feed : Feed := {}
  pipe : Pipe := {}
  /-- The call to the owner that the forwarding task waits for. -/
  forwardCall : Option CallId := none
  /-- The call to the owner that the control loop waits for. -/
  closeCall : Option CallId := none
  nextCall : CallId := 0
  /-- The commands that the owner has not seen. -/
  commands : List Command := []
  /-- The calls that the owner has answered. -/
  answered : List (CallId × Except RelayError Bool) := []
  /-- The calls for closing that the owner has answered. -/
  closeAnswered : List CallId := []
  owner : Owner := .fresh
  /-- What the host has sent and the owner has not read. -/
  inbox : List HostMessage := []
  log : Log := {}
  passed : Passed := {}

/-- A step of a relayed channel. -/
inductive ChannelAction where
  /-- The connection calls the handler for something that the user has sent. -/
  | user (input : UserInput)
  /-- The handler goes on where it waited for room. -/
  | handler
  /-- The connection sends what is oldest in the outbox. -/
  | deliver
  /-- The user's connection is lost. -/
  | lost
  /-- A task of the pipe takes a step; writing to the host comes to this, and recording happens at
  this time. -/
  | task (task : PipeTask) (writing : Except String Unit) (now : Unix)
  /-- A task of the pipe reports. -/
  | report (task : PipeTask)
  /-- A task of the pipe dies. -/
  | dies (task : PipeTask)
  /-- The control loop of the pipe takes a step. -/
  | control (action : PipeAction)
  /-- The owner puts the held message into its queue. -/
  | release
  /-- The owner reads what the host has sent. -/
  | read
  /-- The owner carries out a command; sending comes to this. -/
  | obey (sending : Except String Unit)
  /-- The owner ends. -/
  | finish
  /-- The host sends something. -/
  | host (message : HostMessage)
  /-- The log writer writes a record. -/
  | write (outcome : WriteOutcome)

/-- Whether a step is taken by the bastion, and not by the user or the host. -/
def ChannelAction.isOwn : ChannelAction → Bool
  | .user _ | .lost | .host _ | .dies _ => false
  | _ => true

namespace Channel

/-- How many messages wait in the outbox at most. -/
def outboxDepth : Nat := 10

/-- How many commands wait for the owner at most. -/
def commandDepth : Nat := 32

/-- The channel whose relay is about to start. -/
def start (streams : SessionStreams) : Channel :=
  { streams
    pipe := { recording := {
      data := fun
        | .inbound => streams.input.isSome
        | .outbound => streams.output.isSome } } }

/-! ## The user's connection -/

/-- A request of the handler is settled. A verdict is told to the user. -/
def settle (c : Channel) (asker : AskId) (verdict : Option Bool) : Channel :=
  let toUser := match verdict, c.link with
    | some accepted, .running => [.reply accepted]
    | _, _ => []
  { c with
    callback := .idle
    passed := { c.passed with
      toUser := c.passed.toUser ++ toUser
      verdicts := c.passed.verdicts ++ [(asker, verdict)] } }

/-- Verdicts of the relay reach the handler if it waits for them. -/
def deliverVerdicts (c : Channel) (verdicts : List FeedVerdict) : Channel :=
  verdicts.foldl (fun c v =>
    if c.callback = .awaiting v.asker then c.settle v.asker (some v.accepted) else c) c

/-- The handler offers a block of data, or waits for room. -/
def offer (c : Channel) (chunk : Chunk) : Channel :=
  match c.feed.offer chunk with
  | (feed, none) => { c with feed, callback := .idle }
  | (_, some chunk) => { c with callback := .offering chunk }

/-- The handler passes on a request, or waits for room. -/
def ask (c : Channel) (asker : AskId) (request : Request) : Channel :=
  match c.feed.ask asker request with
  | (_, .full) => { c with callback := .asking asker request }
  | (feed, .asked) => { c with feed, callback := .awaiting asker }
  | (feed, .settled verdict) => { c with feed }.settle asker verdict

/-- The handler is called for something that the user has sent. -/
def call (c : Channel) (input : UserInput) : Channel :=
  let c := { c with passed := { c.passed with fromUser := c.passed.fromUser ++ [input] } }
  match input with
  | .data chunk => c.offer chunk
  | .eof => { c with feed := c.feed.endData }
  | .request request => { c with nextAsker := c.nextAsker + 1 }.ask c.nextAsker request
  | .close => { c with feed := c.feed.close, link := .closed }

/-- The handler goes on where it waited for room. -/
def resume? (c : Channel) : Option Channel :=
  match c.callback with
  | .offering chunk => if c.feed.data.hasRoom then some (c.offer chunk) else none
  | .asking asker request => if c.feed.requests.hasRoom then some (c.ask asker request) else none
  | .idle | .awaiting _ => none

/-- The connection sends what is oldest in the outbox. -/
def deliver? (c : Channel) : Option Channel :=
  match c.callback, c.outbox with
  | .idle, message :: outbox =>
    let (link, seen, _) := c.link.send message
    some { c with outbox, link, passed := { c.passed with toUser := c.passed.toUser ++ seen } }
  | _, _ => none

/-- Puts a message into the outbox, if the connection is there and the outbox has room. -/
def post? (c : Channel) (message : UserMessage) : Option (Channel × Except RelayError Unit) :=
  if c.link = .gone then some (c, .error (.send .inbound "session is gone"))
  else if c.outbox.length < outboxDepth then
    some ({ c with outbox := c.outbox ++ [message] }, .ok ())
  else none

/-! ## The pipe -/

/-- Whether a task has come to its end, whether or not it has said so. -/
def isOver (c : Channel) (task : PipeTask) : Bool :=
  c.pipe.isGone task || (c.pipe.report? task).isSome

/-- Whatever a task held is gone with the task. -/
def dropEnded (c : Channel) : Channel :=
  let feed := if c.isOver (.data .inbound) then c.feed.abandonData else c.feed
  let (feed, verdicts) :=
    if c.isOver (.requests .inbound) then feed.abandonRequests else (feed, [])
  let demux := c.owner.demux
  let data := if c.isOver (.data .outbound) then demux.data.abandon else demux.data
  let requests :=
    if c.isOver (.requests .outbound) then demux.requests.abandon else demux.requests
  { c with feed, owner := { c.owner with demux := { demux with data, requests } } }.deliverVerdicts
    verdicts

/-- A step of the pipe. -/
def advance? (c : Channel) (action : PipeAction) : Option Channel := do
  let pipe ← c.pipe.step? action
  return { c with pipe }.dropEnded

/-- Puts a record into the log, if it has room. Where there is nothing to record nothing waits. -/
def record? (c : Channel) (record : Option Bytes) : Option Channel :=
  if record.isNone || !c.log.alive || c.log.queued.length < Log.queueDepth then
    some { c with log := c.log.append record }
  else none

/-- The stream that records the data read from a side. -/
def dataStream (c : Channel) : Side → Stream
  | .inbound => c.streams.input.getD .disabled
  | .outbound => c.streams.output.getD .disabled

/-- Writes a block of the user's data to the host. -/
def writeToHost (c : Channel) (chunk : Chunk) (writing : Except String Unit) :
    Channel × Except RelayError Unit :=
  if c.owner.dropsWrites then (c, .ok ())
  else
    match writing with
    | .error reason => (c, .error (.send .outbound reason))
    | .ok () =>
      let received := (Lane.ofChunk chunk).carry chunk.data
      ({ c with passed := { c.passed with dataToHost := c.passed.dataToHost ++ [received] } },
        .ok ())

/-- Half-closes the channel to the host. -/
def halfCloseHost (c : Channel) (writing : Except String Unit) : Channel × Except RelayError Unit :=
  if c.owner.dropsWrites then (c, .ok ())
  else
    match writing with
    | .error reason => (c, .error (.send .outbound reason))
    | .ok () => ({ c with passed := { c.passed with halfCloses := c.passed.halfCloses + 1 } }, .ok ())

/-- A step of the task that copies the user's data to the host. -/
def copyToHost? (c : Channel) (writing : Except String Unit) (now : Unix) : Option Channel :=
  match c.pipe.copying .inbound with
  | .reading =>
    match c.feed.takeData with
    | (feed, .item chunk) => { c with feed }.advance? (.read .inbound (.ok (some chunk)))
    | (feed, .ended) => { c with feed }.advance? (.read .inbound (.ok none))
    | (_, .waiting) => none
  | .recording chunk => do
    let c ← c.record? ((c.dataStream .inbound).record? now chunk.data)
    c.advance? (.recorded .inbound chunk)
  | .writing chunk =>
    let (c, result) := c.writeToHost chunk writing
    c.advance? (.wrote .inbound chunk result)
  | .halfClosing =>
    let (c, result) := c.halfCloseHost writing
    c.advance? (.halfClosed .inbound result)
  | .reporting _ | .gone => none

/-- A step of the task that copies the host's data to the user. -/
def copyToUser? (c : Channel) (now : Unix) : Option Channel :=
  match c.pipe.copying .outbound with
  | .reading =>
    let (data, taken) := c.owner.demux.data.take
    let c' := { c with owner := { c.owner with demux := { c.owner.demux with data } } }
    match taken with
    | .item chunk => c'.advance? (.read .outbound (.ok (some chunk)))
    | .ended => c'.advance? (.read .outbound (.ok none))
    | .waiting => none
  | .recording chunk => do
    let c ← c.record? ((c.dataStream .outbound).record? now chunk.data)
    c.advance? (.recorded .outbound chunk)
  | .writing chunk => do
    let (c, result) ← c.post? (.data chunk)
    c.advance? (.wrote .outbound chunk result)
  | .halfClosing => do
    let (c, result) ← c.post? .eof
    c.advance? (.halfClosed .outbound result)
  | .reporting _ | .gone => none

/-- Asks the owner to put a request on the wire, or collects its answer. -/
def requestFromOwner? (c : Channel) (incoming : Incoming) : Option Channel :=
  match c.forwardCall with
  | none =>
    if c.owner.ended then c.advance? (.sent .inbound incoming (.error (.closed .outbound)))
    else if c.commands.length < commandDepth then
      some { c with
        forwardCall := some c.nextCall
        nextCall := c.nextCall + 1
        commands := c.commands ++ [.request c.nextCall incoming.request incoming.wantReply] }
    else none
  | some call => do
    let result ← c.answered.lookup call
    { c with forwardCall := none }.advance? (.sent .inbound incoming result)

/-- A step of the task that forwards the user's requests to the host. -/
def forwardToHost? (c : Channel) (now : Unix) : Option Channel :=
  match c.pipe.forwarding .inbound with
  | .waiting =>
    let (feed, taken, refused) := c.feed.takeRequest
    let c' := { c with feed }.deliverVerdicts refused
    match taken with
    | .item incoming => c'.advance? (.took .inbound (some incoming))
    | .ended => c'.advance? (.took .inbound none)
    | .waiting => none
  | .recording incoming =>
    match incoming.request with
    | .exec command => do
      let c ← c.record? (c.streams.commands.recordLine? now command)
      c.advance? (.recordedCommand command)
    | _ => none
  | .sending incoming => c.requestFromOwner? incoming
  | .replying accepted =>
    let (feed, verdicts) := c.feed.reply accepted
    { c with feed }.deliverVerdicts verdicts |>.advance? (.replied .inbound accepted (.ok ()))
  | .reporting _ | .gone => none

/-- Passes a request of the host on to the user. -/
def requestToUser? (c : Channel) (request : Request) : Option (Channel × Except RelayError Bool) :=
  match request with
  | .exitStatus status => told (.exitStatus status)
  | .exitSignal name coreDumped message language =>
    told (.exitSignal name coreDumped message language)
  | _ => some (c, .ok false)
where
  /-- Puts a message into the outbox, which counts as accepted. -/
  told (message : UserMessage) : Option (Channel × Except RelayError Bool) := do
    let (c, result) ← c.post? message
    return (c, result.map fun () => true)

/-- A step of the task that forwards the host's requests to the user. -/
def forwardToUser? (c : Channel) : Option Channel :=
  match c.pipe.forwarding .outbound with
  | .waiting =>
    let (requests, taken) := c.owner.demux.requests.take
    let c' := { c with owner := { c.owner with demux := { c.owner.demux with requests } } }
    match taken with
    | .item incoming => c'.advance? (.took .outbound (some incoming))
    | .ended => c'.advance? (.took .outbound none)
    | .waiting => none
  | .sending incoming => do
    let (c, result) ← c.requestToUser? incoming.request
    c.advance? (.sent .outbound incoming result)
  | .replying accepted => c.advance? (.replied .outbound accepted (.ok ()))
  | .recording _ | .reporting _ | .gone => none

/-- Closes the channel to the host by way of the owner; an owner that has ended has closed it. -/
def closeHost? (c : Channel) : Option Channel :=
  match c.closeCall with
  | none =>
    if c.owner.ended then c.advance? (.closed .outbound)
    else if c.commands.length < commandDepth then
      some { c with
        closeCall := some c.nextCall
        nextCall := c.nextCall + 1
        commands := c.commands ++ [.close c.nextCall] }
    else none
  | some call =>
    if call ∈ c.closeAnswered || c.owner.ended then
      { c with closeCall := none }.advance? (.closed .outbound)
    else none

/-- Closes the user's channel. -/
def closeUser? (c : Channel) : Option Channel := do
  let (c, _) ← c.post? .close
  c.advance? (.closed .inbound)

/-- A step of the control loop. -/
def control? (c : Channel) : PipeAction → Option Channel
  | .closed .outbound =>
    match c.pipe.control with
    | .closing (.outbound :: _) _ => c.closeHost?
    | _ => none
  | .closed .inbound =>
    match c.pipe.control with
    | .closing (.inbound :: _) _ => c.closeUser?
    | _ => none
  | .seesError => c.advance? .seesError
  | .seesCompletion => c.advance? .seesCompletion
  | .seesNothing => c.advance? .seesNothing
  | _ => none

/-! ## The owner -/

/-- What an effect of the owner leads to. -/
def effect (c : Channel) : OwnerEffect → Channel
  | .sent request wantReply =>
    { c with passed := { c.passed with
        requestsToHost := c.passed.requestsToHost ++ [{ request, wantReply }] } }
  | .closed => { c with passed := { c.passed with closes := c.passed.closes + 1 } }
  | .answered call result => { c with answered := c.answered ++ [(call, result)] }
  | .closeAnswered call _ => { c with closeAnswered := c.closeAnswered ++ [call] }

/-- A step of the owner. -/
def own? (c : Channel) (action : OwnerAction) : Option Channel := do
  let (owner, effects) ← c.owner.step? action
  return effects.foldl effect { c with owner }

/-- Whether nobody can ask anything of the owner any more. -/
def callersGone (c : Channel) : Bool :=
  c.isOver (.requests .inbound) && c.pipe.result?.isSome && c.commands.isEmpty

/-! ## Steps -/

/-- One step of the channel, where it can take it. -/
def step? (c : Channel) : ChannelAction → Option Channel
  | .user input =>
    if c.callback = .idle && c.link ≠ .gone then some (c.call input) else none
  | .handler => c.resume?
  | .deliver => c.deliver?
  | .lost => some { c with link := .gone, callback := .idle, feed := c.feed.close, outbox := [] }
  | .task (.data .inbound) writing now => c.copyToHost? writing now
  | .task (.data .outbound) _ now => c.copyToUser? now
  | .task (.requests .inbound) _ now => c.forwardToHost? now
  | .task (.requests .outbound) _ _ => c.forwardToUser?
  | .report task => c.advance? (.reports task)
  | .dies task => c.advance? (.dies task)
  | .control action => c.control? action
  | .release => c.own? .release
  | .read =>
    match c.inbox with
    | message :: inbox => { c with inbox }.own? (.message message)
    | [] => none
  | .obey sending =>
    match c.commands with
    | command :: commands => { c with commands }.own? (.command command sending)
    | [] => none
  | .finish => if c.callersGone then c.own? .finish else none
  | .host message =>
    some { c with
      inbox := c.inbox ++ [message]
      passed := { c.passed with fromHost := c.passed.fromHost ++ [message] } }
  | .write outcome =>
    if c.log.alive && !c.log.queued.isEmpty then some { c with log := c.log.write outcome } else none

/-- The channel after some steps, where it can take them all. -/
def run? (c : Channel) : List ChannelAction → Option Channel
  | [] => some c
  | action :: more => do (← c.step? action).run? more

/-- A channel that can be reached from its start. -/
def Reachable (streams : SessionStreams) (c : Channel) : Prop :=
  ∃ actions, (start streams).run? actions = some c

end Channel

end Gatehouse.Relay
