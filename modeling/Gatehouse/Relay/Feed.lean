import Gatehouse.Relay.Demux

/-!
# What a user sends on a relayed channel

The handler of a user's connection puts data and requests into two bounded queues, from which the
relay reads. A request that takes a reply waits for its verdict: the relay's reply goes to whoever
asked for the request that was taken last. Whoever waits when the relay's side goes away is refused.
-/

namespace Gatehouse.Relay

/-- A waiting asker. -/
abbrev AskId := Nat

/-- A request in the queue, and who waits for its verdict. -/
structure Asked where
  incoming : Incoming
  asker : Option AskId
deriving DecidableEq

/-- A verdict for an asker. -/
structure FeedVerdict where
  asker : AskId
  accepted : Bool
deriving DecidableEq

/-- The queues between the handler and the relay of one channel. -/
structure Feed where
  data : Queue Chunk := { depth := Demux.dataDepth }
  requests : Queue Asked := { depth := Demux.requestDepth }
  /-- Who waits for the next reply. -/
  owed : Option AskId := none
deriving DecidableEq

/-- What comes of asking. -/
inductive AskOutcome where
  /-- The queue is full, so the asker has to wait until it can ask at all. -/
  | full
  /-- The request is in the queue, and the asker waits for the verdict. -/
  | asked
  /-- The asker need not wait. There is a verdict only for a request that takes a reply. -/
  | settled (verdict : Option Bool)
deriving DecidableEq

namespace Feed

/-! ## The handler's side -/

/-- Offers user data, and gives it back if the queue is full. -/
def offer (f : Feed) (chunk : Chunk) : Feed × Option Chunk :=
  let (data, rest) := f.data.push chunk
  ({ f with data }, rest)

/-- The user sends no more data. -/
def endData (f : Feed) : Feed :=
  { f with data := f.data.finish }

/-- Passes on a request of the user. -/
def ask (f : Feed) (asker : AskId) (request : Request) : Feed × AskOutcome :=
  let incoming := Incoming.ofRequest request
  let refused := if incoming.wantReply then some false else none
  if !f.requests.fed || !f.requests.read then (f, .settled refused)
  else
    let item : Asked := { incoming, asker := if incoming.wantReply then some asker else none }
    match f.requests.push item with
    | (_, some _) => (f, .full)
    | (requests, none) =>
      ({ f with requests }, if incoming.wantReply then .asked else .settled none)

/-- The user has closed the channel. -/
def close (f : Feed) : Feed :=
  { f with data := f.data.finish, requests := f.requests.finish }

/-! ## The relay's side -/

/-- The refusals of some askers. -/
def refusals (askers : List AskId) : List FeedVerdict :=
  askers.map fun asker => { asker, accepted := false }

/-- Reads data. -/
def takeData (f : Feed) : Feed × Taken Chunk :=
  let (data, taken) := f.data.take
  ({ f with data }, taken)

/-- Takes the next request. Whoever still waits for a reply to the one before is refused. -/
def takeRequest (f : Feed) : Feed × Taken Incoming × List FeedVerdict :=
  match f.requests.take with
  | (requests, .item asked) =>
    ({ f with requests, owed := asked.asker }, .item asked.incoming, refusals f.owed.toList)
  | (requests, .ended) => ({ f with requests }, .ended, [])
  | (requests, .waiting) => ({ f with requests }, .waiting, [])

/-- Answers the request that was taken last. A second answer goes nowhere. -/
def reply (f : Feed) (accepted : Bool) : Feed × List FeedVerdict :=
  ({ f with owed := none }, f.owed.toList.map fun asker => { asker, accepted })

/-- The relay reads no more data. -/
def abandonData (f : Feed) : Feed :=
  { f with data := f.data.abandon }

/-- The relay takes no more requests, so everyone who waits is refused. -/
def abandonRequests (f : Feed) : Feed × List FeedVerdict :=
  ({ f with requests := f.requests.abandon, owed := none },
    refusals (f.owed.toList ++ f.requests.items.filterMap Asked.asker))

/-- The relay has ended. -/
def abandon (f : Feed) : Feed × List FeedVerdict :=
  f.abandonData.abandonRequests

end Feed

end Gatehouse.Relay
