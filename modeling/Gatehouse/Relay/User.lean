import Gatehouse.Relay.Error
import Gatehouse.Relay.Request
import Gatehouse.Text.Utf8

/-!
# Writing to a user

What the bastion sends on a user's channel. After the channel is closed nothing is sent any more,
silently; once the user's connection is gone, sending fails.
-/

namespace Gatehouse.Relay

/-- A message on a user's channel. -/
inductive UserMessage where
  | data (chunk : Chunk)
  | eof
  | close
  | exitStatus (status : UInt32)
  | exitSignal (name : String) (coreDumped : Bool) (message language : String)
  /-- The answer to a request of the user. -/
  | reply (accepted : Bool)
deriving DecidableEq

/-- A user's channel as far as sending goes. -/
inductive UserLink where
  | running
  | closed
  /-- The connection is gone. -/
  | gone
deriving DecidableEq, Repr

namespace UserLink

/-- What of some messages reaches the user. An empty block of data is no message. -/
def visible : UserMessage → List UserMessage
  | .data chunk => if chunk.data.isEmpty then [] else [.data chunk]
  | message => [message]

/-- Sends a message. -/
def send (link : UserLink) (message : UserMessage) :
    UserLink × List UserMessage × Except RelayError Unit :=
  match link with
  | .gone => (.gone, [], .error (.send .inbound "session is gone"))
  | .closed => (.closed, [], .ok ())
  | .running => (if message = .close then .closed else .running, visible message, .ok ())

/-- Sends messages one after the other, whatever becomes of each. -/
def sendAll (link : UserLink) : List UserMessage → UserLink × List UserMessage
  | [] => (link, [])
  | message :: more =>
    let (link, seen, _) := link.send message
    let (link, later) := link.sendAll more
    (link, seen ++ later)

/-- Sends a request of the host. Only the end of a program can be told to a user; gives whether the
request is such. -/
def request (link : UserLink) (request : Request) :
    UserLink × List UserMessage × Except RelayError Bool :=
  match request with
  | .exitStatus status => told (.exitStatus status)
  | .exitSignal name coreDumped message language =>
    told (.exitSignal name coreDumped message language)
  | _ => (link, [], .ok false)
where
  /-- Sends a message, which counts as accepted. -/
  told (message : UserMessage) : UserLink × List UserMessage × Except RelayError Bool :=
    let (link, seen, result) := link.send message
    (link, seen, result.map fun () => true)

end UserLink

/-- The messages by which a channel is refused: a line that says why, a failing exit status, and the
end. -/
def refusal (reason : String) : List UserMessage :=
  [.data { data := Text.utf8 ("error: " ++ reason ++ "\n") }, .exitStatus 1, .eof, .close]

end Gatehouse.Relay
