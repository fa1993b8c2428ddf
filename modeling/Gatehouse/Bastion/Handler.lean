import Gatehouse.Bastion.Auth
import Gatehouse.Relay.User

/-!
# The handler of a user's connection

Each connection has a handler, which knows how the connection was authenticated and what its channels
are for: some are relayed to a host, the others are answered by the bastion itself. What the handler
wants done about a channel is an effect; the queues of relayed channels are not its own.
-/

namespace Gatehouse.Bastion

open Relay (Chunk Request UserMessage)

/-- The number of a channel of one connection. -/
abbrev ChannelId := Nat

/-- What a user opens a channel for. -/
inductive ChannelKind where
  | session
  /-- A connection forwarded to an address that the host reaches. -/
  | forward (host : String) (port : UInt32) (originHost : String) (originPort : UInt32)
deriving DecidableEq

/-- The kind of channel as it appears in the name of a recording. -/
def ChannelKind.logName : ChannelKind → String
  | .session => "session"
  | .forward .. => "direct-tcpip"

/-! ## Texts for channels that are not relayed -/

/-- What is said of the administrative shell. -/
def shellNotice : String :=
  "The administrative shell is not served on this endpoint.\n"

/-- What the bastion answers on a channel of its own, and the exit status. -/
def localReply (c : Context) : String × UInt32 :=
  if c.intent = .healthcheck then ("OK\n", 0)
  else
    match c.deferredError with
    | some e => ("error: " ++ e ++ "\n", 1)
    | none =>
      match c.intent, c.message with
      | .invite _, some message => (message, 0)
      | _, some message => (message ++ shellNotice, 1)
      | _, none => (shellNotice, 1)

/-- Why a connection's channels are not relayed, if so. -/
def admissionError (c : Context) : Option String :=
  match c.deferredError, c.user with
  | some e, _ => some e
  | none, none => some "access denied"
  | none, some _ => none

/-! ## The handler -/

/-- What happens on a connection after it has been authenticated. -/
inductive ConnectionEvent where
  | opened (channel : ChannelId) (kind : ChannelKind)
  | data (channel : ChannelId) (chunk : Chunk)
  | eof (channel : ChannelId)
  | closed (channel : ChannelId)
  | request (channel : ChannelId) (request : Request)
  /-- A request to forward a display. -/
  | display (channel : ChannelId)
  /-- A request to forward an authentication agent. -/
  | agent (channel : ChannelId)

/-- What is passed to the queues of a relayed channel. -/
inductive FeedInput where
  | data (chunk : Chunk)
  | eof
  | request (request : Request)
  | close
deriving DecidableEq

/-- What the handler wants done. -/
inductive HandlerEffect where
  /-- The opening of the channel is accepted. -/
  | accept (channel : ChannelId)
  /-- The opening of the channel is refused. -/
  | decline (channel : ChannelId)
  /-- The channel is to be relayed. -/
  | relay (channel : ChannelId) (user : User) (hostName : String) (kind : ChannelKind)
  /-- The user is shown why the channel is not relayed. -/
  | refuse (channel : ChannelId) (reason : String)
  /-- Something for the queues of a relayed channel. A request gets its reply from there. -/
  | feed (channel : ChannelId) (input : FeedInput)
  /-- Something is sent to the user. -/
  | send (channel : ChannelId) (message : UserMessage)
deriving DecidableEq

/-- The handler's state. -/
structure Handler where
  context : Context := {}
  /-- The channels that have queues. -/
  relayed : List ChannelId := []
  /-- The channels that the bastion answers itself. -/
  locals : List ChannelId := []
deriving DecidableEq

namespace Handler

/-- A channel is opened. -/
def openChannel (h : Handler) (channel : ChannelId) (kind : ChannelKind) :
    Handler × List HandlerEffect :=
  match h.context.intent with
  | .host hostName =>
    match admissionError h.context, h.context.user with
    | some reason, _ => (h, [.accept channel, .refuse channel reason])
    | none, none => (h, [.decline channel])
    | none, some user =>
      ({ h with relayed := h.relayed ++ [channel] },
        [.accept channel, .relay channel user hostName kind])
  | _ =>
    if kind = .session then ({ h with locals := h.locals ++ [channel] }, [.accept channel])
    else (h, [.decline channel])

/-- The answer on a channel of the bastion's own, after which the channel is done. -/
def replyLocally (h : Handler) (channel : ChannelId) : Handler × List HandlerEffect :=
  let (text, status) := localReply h.context
  ({ h with locals := h.locals.filter (· ≠ channel) },
    [.send channel (.data { data := Text.utf8 text }), .send channel (.exitStatus status),
      .send channel .eof, .send channel .close])

/-- A request on a channel. -/
def route (h : Handler) (channel : ChannelId) (request : Request) : Handler × List HandlerEffect :=
  if channel ∈ h.relayed then (h, [.feed channel (.request request)])
  else if channel ∉ h.locals then (h, [.send channel (.reply false)])
  else
    match request with
    | .pty .. | .env .. | .windowChange .. => (h, [.send channel (.reply true)])
    | .shell | .exec _ =>
      let (h, effects) := h.replyLocally channel
      (h, .send channel (.reply true) :: effects)
    | _ => (h, [.send channel (.reply false)])

/-- Takes an event. -/
def step (h : Handler) : ConnectionEvent → Handler × List HandlerEffect
  | .opened channel kind => h.openChannel channel kind
  | .data channel chunk =>
    (h, if channel ∈ h.relayed then [.feed channel (.data chunk)] else [])
  | .eof channel => (h, if channel ∈ h.relayed then [.feed channel .eof] else [])
  | .closed channel =>
    ({ h with relayed := h.relayed.filter (· ≠ channel)
              locals := h.locals.filter (· ≠ channel) },
      if channel ∈ h.relayed then [.feed channel .close] else [])
  | .request channel request => h.route channel request
  | .display channel => (h, [.send channel (.reply false)])
  | .agent _ => (h, [])

/-- Takes events one after the other. -/
def run (h : Handler) : List ConnectionEvent → Handler × List HandlerEffect
  | [] => (h, [])
  | event :: more =>
    let (h, effects) := h.step event
    let (h, later) := h.run more
    (h, effects ++ later)

end Handler

end Gatehouse.Bastion
