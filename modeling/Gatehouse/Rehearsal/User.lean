import Gatehouse.Relay.Feed
import Gatehouse.Relay.User

/-!
# Rehearsing the channel of a user

The queues from a user to a relay and the way back, each call being made when the one before it has
ended or has been given up. Who gives up asking is no longer there when the verdict comes.
-/

namespace Gatehouse.Rehearsal

open Relay

/-- A user's channel, as the handler of the connection and the relay see it. -/
structure UserChannel where
  feed : Feed := {}
  link : UserLink := .running
  /-- The relay's end is still there. -/
  relayed : Bool := true
  nextAsker : AskId := 0
  /-- What the user has received. -/
  seen : List UserMessage := []

namespace UserChannel

/-! ## The handler's side -/

/-- Offers data; gives whether it was taken. -/
def offer (c : UserChannel) (chunk : Chunk) : UserChannel × Bool :=
  match c.feed.offer chunk with
  | (feed, none) => ({ c with feed }, true)
  | (_, some _) => (c, false)

/-- Offers data `n` times, until once it is not taken. -/
def offerTimes (chunk : Chunk) : (n : Nat) → UserChannel → UserChannel × Bool
  | 0, c => (c, true)
  | n + 1, c =>
    match c.offer chunk with
    | (c, true) => offerTimes chunk n c
    | (c, false) => (c, false)

/-- Passes on a request; gives the verdict, unless the asker has to give up waiting for it. -/
def ask (c : UserChannel) (request : Request) : UserChannel × Option (Option Bool) :=
  let (feed, outcome) := c.feed.ask c.nextAsker request
  let c := { c with feed, nextAsker := c.nextAsker + 1 }
  match outcome with
  | .settled verdict => (c, some verdict)
  | .full | .asked => (c, none)

/-- Passes on a request `n` times; gives what comes of the last time. -/
def askTimes (request : Request) : (n : Nat) → UserChannel → UserChannel × Option (Option Bool)
  | 0, c => (c, some none)
  | 1, c => c.ask request
  | n + 1, c => askTimes request n (c.ask request).1

/-- What the relay does when it has taken a request. -/
inductive Handling where
  | reply (accepted : Bool)
  /-- It goes away, also if there was none to take. -/
  | leave
deriving DecidableEq

/-- Handles a request that has been taken, or the lack of one. -/
def Handling.apply (h : Handling) (taken : Taken Incoming) (feed : Feed) :
    Feed × List FeedVerdict :=
  match h, taken with
  | .leave, _ => feed.abandon
  | .reply accepted, .item _ => feed.reply accepted
  | .reply _, _ => (feed, [])

/-- What comes of a request that the relay meets while its asker waits. -/
structure Met where
  verdict : Option Bool
  /-- What the relay took. -/
  taken : Taken Incoming

/-- Passes on a request while the relay takes one and handles it. Who found the queue full asks
again after that. Gives nothing if the asker has to give up. -/
def askMet (c : UserChannel) (request : Request) (handling : Handling) : UserChannel × Option Met :=
  let asker := c.nextAsker
  let (feed, outcome) := c.feed.ask asker request
  let (feed, taken, refused) := feed.takeRequest
  let (feed, verdicts) := handling.apply taken feed
  let (feed, outcome) := if outcome = .full then feed.ask asker request else (feed, outcome)
  let verdict := match outcome with
    | .settled verdict => some verdict
    | .full | .asked =>
      (refused ++ verdicts).findSome? fun v : FeedVerdict =>
        if v.asker = asker then some (some v.accepted) else none
  ({ c with feed, nextAsker := asker + 1, relayed := c.relayed && handling ≠ .leave },
    verdict.map fun verdict => { verdict, taken })

/-! ## The relay's side -/

/-- Reads data. -/
def read (c : UserChannel) : UserChannel × Taken Chunk :=
  let (feed, taken) := c.feed.takeData
  ({ c with feed }, taken)

/-- Reads all that is at hand, at most `n` blocks; gives also whether the end is reached. -/
def readAtMost : (n : Nat) → UserChannel → UserChannel × List Chunk × Bool
  | 0, c => (c, [], false)
  | n + 1, c =>
    match c.read with
    | (c, .item chunk) =>
      let (c, chunks, ended) := readAtMost n c
      (c, chunk :: chunks, ended)
    | (c, .ended) => (c, [], true)
    | (c, .waiting) => (c, [], false)

/-- Reads all that is at hand. -/
def readAll (c : UserChannel) : UserChannel × List Chunk × Bool :=
  readAtMost (c.feed.data.items.length + 1) c

/-- Takes the next request. -/
def nextRequest (c : UserChannel) : UserChannel × Taken Incoming :=
  let (feed, taken, _) := c.feed.takeRequest
  ({ c with feed }, taken)

/-- Answers the request that was taken last. -/
def reply (c : UserChannel) (accepted : Bool) : UserChannel :=
  { c with feed := (c.feed.reply accepted).1 }

/-- The relay's end goes away. -/
def leave (c : UserChannel) : UserChannel :=
  { c with feed := c.feed.abandon.1, relayed := false }

/-- Sends something to the user. -/
def send (c : UserChannel) (message : UserMessage) : UserChannel × Except RelayError Unit :=
  let (link, seen, result) := c.link.send message
  ({ c with link, seen := c.seen ++ seen }, result)

/-- Sends a request of the host to the user. -/
def request (c : UserChannel) (request : Request) : UserChannel × Except RelayError Bool :=
  let (link, seen, result) := c.link.request request
  ({ c with link, seen := c.seen ++ seen }, result)

/-- Refuses the channel. -/
def refuse (c : UserChannel) (reason : String) : UserChannel :=
  let (link, seen) := c.link.sendAll (refusal reason)
  { c with link, seen := c.seen ++ seen }

/-! ## The user -/

/-- The user closes the channel. -/
def userClose (c : UserChannel) : UserChannel :=
  { c with link := if c.link = .running then .closed else c.link }

/-- The user's connection is lost, which ends a channel that is still open. -/
def userDisconnect (c : UserChannel) : UserChannel :=
  { c with link := .gone, seen := c.seen ++ if c.link = .running then [.close] else [] }

end UserChannel

end Gatehouse.Rehearsal
