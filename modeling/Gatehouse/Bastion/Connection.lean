import Gatehouse.Bastion.Handler
import Gatehouse.Relay.Feed

/-!
# A user's connection and the queues of its channels

The loop of a user's connection calls the handler for one thing after the other. Each relay that the handler
starts gets queues of its own, which the handler holds until the channel is closed, and from which the relay
reads meanwhile. A call that finds a queue full, or that waits for the verdict on a request, holds up the
loop, and with it every channel of the connection.

Each step is taken by the user, by the handler where it waits, or by one of the relays. The state keeps what
the handler was called for and what it wanted done.
-/

namespace Gatehouse.Bastion

open Relay (AskId Chunk Feed FeedVerdict Request)

/-- The queues of a relay that has been started. -/
structure Line where
  channel : ChannelId
  /-- How many things had happened on the connection before the channel was opened. -/
  opening : Nat
  feed : Feed := {}
  /-- The handler has the queues under the number of their channel. -/
  held : Bool := true
  /-- The data that the relay has read. -/
  taken : List Chunk := []

namespace Line

/-- The handler lets go of the queues. -/
def drop (l : Line) : Line :=
  { l with feed := l.feed.close, held := false }

/-- The relay reads data. -/
def takeData (l : Line) : Line :=
  match l.feed.takeData with
  | (feed, .item chunk) => { l with feed, taken := l.taken ++ [chunk] }
  | (feed, _) => { l with feed }

end Line

/-- What the handler is doing. -/
inductive HandlerCall where
  | idle
  /-- It waits for room for a block of data. -/
  | offering (channel : ChannelId) (chunk : Chunk)
  /-- It waits for room for a request. -/
  | asking (channel : ChannelId) (asker : AskId) (request : Request)
  /-- It waits for a verdict. -/
  | awaiting (channel : ChannelId) (asker : AskId)

/-- A connection at some moment. -/
structure Connection where
  handler : Handler
  lines : List Line := []
  doing : HandlerCall := .idle
  nextAsker : AskId := 0
  /-- What the handler was called for and what it wanted done, oldest first. -/
  trace : List (ConnectionEvent × List HandlerEffect) := []
  /-- The verdicts on relayed requests that the user was told, oldest first. -/
  told : List (ChannelId × Bool) := []

/-- A step of a connection. The relays are named by the opening of their channel. -/
inductive ConnectionAction where
  /-- The handler is called. -/
  | call (event : ConnectionEvent)
  /-- The handler goes on where it waited for room. -/
  | resume
  /-- A relay reads data. -/
  | takeData (opening : Nat)
  /-- A relay takes a request. -/
  | takeRequest (opening : Nat)
  /-- A relay answers the request that it took last. -/
  | reply (opening : Nat) (accepted : Bool)
  /-- A relay reads no more data. -/
  | leaveData (opening : Nat)
  /-- A relay takes no more requests. -/
  | leaveRequests (opening : Nat)

namespace Connection

/-- A connection that has been authenticated. -/
def start (context : Context) : Connection :=
  { handler := { context } }

/-- What has happened on the connection. -/
def events (c : Connection) : List ConnectionEvent :=
  c.trace.map Prod.fst

/-! ### The handler's side -/

/-- The queues that the handler holds for a channel. -/
def line? (c : Connection) (channel : ChannelId) : Option Line :=
  c.lines.find? fun l => l.held && l.channel == channel

/-- Something is done to the queues that the handler holds for a channel. -/
def withHeld (c : Connection) (channel : ChannelId) (f : Line → Line) : Connection :=
  { c with lines := c.lines.map fun l => if l.held && l.channel == channel then f l else l }

/-- Something is done to the handler's end of these queues. -/
def withFeed (c : Connection) (channel : ChannelId) (f : Feed → Feed) : Connection :=
  c.withHeld channel fun l => { l with feed := f l.feed }

/-- The handler offers a block of data, or waits for room. -/
def offer (c : Connection) (channel : ChannelId) (chunk : Chunk) : Connection :=
  match c.line? channel with
  | none => { c with doing := .idle }
  | some l =>
    match l.feed.offer chunk with
    | (_, none) => { c with doing := .idle }.withFeed channel fun feed => (feed.offer chunk).1
    | (_, some chunk) => { c with doing := .offering channel chunk }

/-- A request is settled. A verdict is told to the user. -/
def settle (c : Connection) (channel : ChannelId) (verdict : Option Bool) : Connection :=
  { c with doing := .idle, told := c.told ++ verdict.toList.map (channel, ·) }

/-- The handler passes on a request, or waits for room. -/
def ask (c : Connection) (channel : ChannelId) (asker : AskId) (request : Request) : Connection :=
  match c.line? channel with
  | none => { c with doing := .idle }
  | some l =>
    match l.feed.ask asker request with
    | (_, .full) => { c with doing := .asking channel asker request }
    | (_, .asked) =>
      { c with doing := .awaiting channel asker }.withFeed channel fun feed =>
        (feed.ask asker request).1
    | (_, .settled verdict) =>
      (c.withFeed channel fun feed => (feed.ask asker request).1).settle channel verdict

/-- Does what the handler wants done about the queues. Queues that were held for the channel of a new
relay are let go. -/
def carryOut (c : Connection) : HandlerEffect → Connection
  | .relay channel _ _ _ =>
    let c' := c.withHeld channel .drop
    { c' with lines := c'.lines ++ [{ channel, opening := c.trace.length }] }
  | .feed channel (.data chunk) => c.offer channel chunk
  | .feed channel .eof => c.withFeed channel .endData
  | .feed channel (.request request) =>
    { c with nextAsker := c.nextAsker + 1 }.ask channel c.nextAsker request
  | .feed channel .close => c.withHeld channel .drop
  | .accept _ | .decline _ | .refuse .. | .send .. => c

/-- What the SSH library answers after the handler has been called. The handler declines every agent by
what it returns. -/
def libraryAnswer : ConnectionEvent → List HandlerEffect
  | .agent channel => [.send channel (.reply false)]
  | _ => []

/-- The handler is called. -/
def call (c : Connection) (event : ConnectionEvent) : Connection :=
  let (handler, effects) := c.handler.step event
  let c' := effects.foldl carryOut { c with handler }
  { c' with trace := c'.trace ++ [(event, effects ++ libraryAnswer event)] }

/-- The handler goes on where it waited for room. -/
def resume? (c : Connection) : Option Connection :=
  match c.doing with
  | .offering channel chunk => do
    let l ← c.line? channel
    if l.feed.data.hasRoom then some (c.offer channel chunk) else none
  | .asking channel asker request => do
    let l ← c.line? channel
    if l.feed.requests.hasRoom then some (c.ask channel asker request) else none
  | .idle | .awaiting .. => none

/-! ### The relays' side -/

/-- Something is done to the queues of one relay. -/
def withLine (c : Connection) (opening : Nat) (f : Line → Line) : Connection :=
  { c with lines := c.lines.map fun l => if l.opening = opening then f l else l }

/-- Verdicts of a relay reach the handler if it waits for them. -/
def deliver (c : Connection) (verdicts : List FeedVerdict) : Connection :=
  verdicts.foldl (fun c v =>
    match c.doing with
    | .awaiting channel asker => if asker = v.asker then c.settle channel (some v.accepted) else c
    | _ => c) c

/-- A relay does something about its requests, and the verdicts that come of it are delivered. -/
def withRequests (c : Connection) (opening : Nat) (f : Feed → Feed × List FeedVerdict) : Connection :=
  let verdicts := c.lines.flatMap fun l => if l.opening = opening then (f l.feed).2 else []
  (c.withLine opening fun l => { l with feed := (f l.feed).1 }).deliver verdicts

/-- One step, where it can be taken. -/
def step? (c : Connection) : ConnectionAction → Option Connection
  | .call event =>
    match c.doing with
    | .idle => some (c.call event)
    | _ => none
  | .resume => c.resume?
  | .takeData opening => some (c.withLine opening .takeData)
  | .takeRequest opening =>
    some (c.withRequests opening fun feed => (feed.takeRequest.1, feed.takeRequest.2.2))
  | .reply opening accepted => some (c.withRequests opening fun feed => feed.reply accepted)
  | .leaveData opening =>
    some (c.withLine opening fun l => { l with feed := l.feed.abandonData })
  | .leaveRequests opening => some (c.withRequests opening Feed.abandonRequests)

/-- The connection after some steps, where all of them can be taken. -/
def run? (c : Connection) : List ConnectionAction → Option Connection
  | [] => some c
  | action :: more => do (← c.step? action).run? more

end Connection

end Gatehouse.Bastion
