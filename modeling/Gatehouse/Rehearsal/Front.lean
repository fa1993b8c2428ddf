import Gatehouse.Bastion.Handler
import Gatehouse.Rehearsal.Named
import Gatehouse.Rehearsal.Offline

/-!
# Rehearsing users' connections

Users who follow a script talk to a bastion on a machine without a network. Each thing that a user
does is carried through to its end before the next one. Connections and channels have names.
-/

namespace Gatehouse.Rehearsal

open Bastion
open Relay
open Time (Instant)

/-- The connection of a user. -/
structure Connection where
  handler : Handler := {}
  /-- The connection has not ended. -/
  alive : Bool := true

/-- A channel of a user. -/
structure OpenChannel where
  connection : String
  id : ChannelId
  link : UserLink := .running

/-- A bastion with its users. -/
structure Front where
  service : Service
  store : Store
  now : Instant
  hookCalls : List Access.HookCall := []
  connections : List (String × Connection) := []
  channels : List (String × OpenChannel) := []
  /-- How many channels have been opened. -/
  opened : Nat := 0
  /-- What the users have received. -/
  seen : List (String × UserMessage) := []

/-- What a user is told about an attempt that does not come through. -/
inductive Setback where
  /-- There is no channel of that name. -/
  | noChannel
  /-- The connection refuses. -/
  | transport (text : String)

namespace Front

/-- The front with another state of a connection. -/
def setConnection (f : Front) (name : String) (c : Connection) : Front :=
  { f with connections := overlay f.connections name c }

/-- The front with another state of a channel. -/
def setChannel (f : Front) (name : String) (c : OpenChannel) : Front :=
  { f with channels := overlay f.channels name c }

/-- The connection of a name, which is a new one if the name is new. -/
def connection (f : Front) (name : String) : Connection :=
  (f.connections.lookup name).getD {}

/-! ## What the bastion does -/

/-- Sends messages on a channel. A reply is sent only if the user waits for one. -/
def send (f : Front) (name : String) (wantReply : Bool) (messages : List UserMessage) : Front :=
  match f.channels.lookup name with
  | none => f
  | some c =>
    let (link, seen) := c.link.sendAll <| messages.filter fun
      | .reply _ => wantReply
      | _ => true
    { f.setChannel name { c with link } with seen := f.seen ++ seen.map fun m => (name, m) }

/-- Serves a relayed channel, which comes to nothing without a network. -/
def serve (f : Front) (name : String) (user : User) (hostName : String) (kind : ChannelKind) : Front :=
  let (served, hookCalls) :=
    (f.service.serve (Offline.surroundings f.now) f.store user hostName kind).run f.hookCalls
  { f with store := served.store, hookCalls }.send name false served.messages

/-- Carries out what the handler wants done about a channel. -/
def carryOut (name : String) (wantReply : Bool) (f : Front) : HandlerEffect → Front
  | .relay _ user hostName kind => f.serve name user hostName kind
  | .refuse _ reason => f.send name false (refusal reason)
  | .send _ message => f.send name wantReply [message]
  | .accept _ | .decline _ | .feed .. => f

/-- An event on a channel. -/
def act (f : Front) (name : String) (wantReply : Bool) (event : ChannelId → ConnectionEvent) :
    Front :=
  match f.channels.lookup name with
  | none => f
  | some c =>
    let connection := f.connection c.connection
    let (handler, effects) := connection.handler.step (event c.id)
    let f := f.setConnection c.connection { connection with handler }
    let f := effects.foldl (carryOut name wantReply) f
    match f.channels.lookup name with
    | some { link := .closed, .. } =>
      let connection := f.connection c.connection
      f.setConnection c.connection
        { connection with handler := (connection.handler.step (.closed c.id)).1 }
    | _ => f

/-! ## What users do -/

/-- A user tries a key; gives whether it is accepted. -/
def tryKey (f : Front) (name username : String) (key : Key.PublicKey) :
    Front × Except Setback Bool :=
  let c := f.connection name
  if !c.alive then (f, .error (.transport "Disconnected"))
  else
    let (context, store, result) :=
      c.handler.context.authenticateKey f.store f.now username (.ofPublicKey key)
    match result with
    | .ok () =>
      ({ f.setConnection name { c with handler := { c.handler with context } } with store }, .ok true)
    | .error _ => (f.setConnection name { c with alive := false }, .error (.transport "Disconnected"))

/-- A user tries a password; gives whether it is accepted. -/
def tryPassword (f : Front) (name username : String) : Front × Except Setback Bool :=
  let c := f.connection name
  if !c.alive then (f, .error (.transport "Disconnected"))
  else
    let (context, accepted) := c.handler.context.authenticatePassword username
    (f.setConnection name { c with handler := { c.handler with context } }, .ok accepted)

/-- A user opens a channel. -/
def openChannel (f : Front) (connectionName name : String) (kind : ChannelKind) :
    Front × Except Setback Unit :=
  match f.connections.lookup connectionName with
  | none => (f, .error .noChannel)
  | some c =>
    if !c.alive then (f, .error (.transport "Disconnected"))
    else
      let id := f.opened
      let (_, effects) := c.handler.step (.opened id kind)
      let f := { f with opened := id + 1 }
      if effects.contains (.accept id) then
        let f := f.setChannel name { connection := connectionName, id }
        (f.act name false fun id => .opened id kind, .ok ())
      else
        let refused := TransportError.prohibited.message
        (f, .error (.transport refused))

/-- A user does something on a channel, if it is still open. -/
def use (f : Front) (name : String) (wantReply : Bool) (event : ChannelId → ConnectionEvent) :
    Front × Except Setback Unit :=
  match f.channels.lookup name with
  | none => (f, .error .noChannel)
  | some { link := .running, .. } => (f.act name wantReply event, .ok ())
  | some _ => (f, .ok ())

/-- A user closes a channel. -/
def close (f : Front) (name : String) : Front × Except Setback Unit :=
  match f.channels.lookup name with
  | none => (f, .error .noChannel)
  | some c =>
    if c.link = .running then
      let f := f.setChannel name { c with link := .closed }
      (f.act name false .closed, .ok ())
    else (f, .ok ())

/-- A user ends a connection, and with it its channels. -/
def disconnect (f : Front) (name : String) : Front :=
  let f := f.setConnection name { f.connection name with alive := false }
  f.channels.reverse.foldl (fun f (channel, c) =>
    if c.connection = name && c.link = .running then
      { f.setChannel channel { c with link := .gone } with seen := f.seen ++ [(channel, .close)] }
    else f) f

end Front

end Gatehouse.Rehearsal
