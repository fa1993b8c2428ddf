import Gatehouse.Bytes

/-!
# What passes over a channel

Blocks of data, and requests that travel beside them.
-/

namespace Gatehouse.Relay

/-- A block of channel data. Extended data carries a type code. -/
structure Chunk where
  data : Bytes
  ext : Option UInt32 := none
deriving DecidableEq

/-- A request on a channel, whichever side has sent it. -/
inductive Request where
  | pty (term : String) (cols rows pixWidth pixHeight : UInt32) (modes : List (Nat × UInt32))
  | shell
  | exec (command : Bytes)
  | env (name value : String)
  | windowChange (cols rows pixWidth pixHeight : UInt32)
  | signal (name : String)
  | subsystem (name : String)
  | exitStatus (status : UInt32)
  | exitSignal (name : String) (coreDumped : Bool) (message language : String)
deriving DecidableEq

namespace Request

/-- The name of the request on the wire. -/
def kind : Request → String
  | pty .. => "pty-req"
  | shell => "shell"
  | exec _ => "exec"
  | env .. => "env"
  | windowChange .. => "window-change"
  | signal _ => "signal"
  | subsystem _ => "subsystem"
  | exitStatus _ => "exit-status"
  | exitSignal .. => "exit-signal"

/-- Whether the sender of such a request waits for an answer. -/
def wantsReply : Request → Bool
  | windowChange .. | signal _ | exitStatus _ | exitSignal .. => false
  | _ => true

/-- Whether a client ever sends such a request to a server. -/
def isForServer : Request → Bool
  | exitStatus _ | exitSignal .. => false
  | _ => true

end Request

/-- A request on its way, and whether its sender waits for an answer. -/
structure Incoming where
  request : Request
  wantReply : Bool
deriving DecidableEq

/-- A request that wants a reply if its kind does. -/
def Incoming.ofRequest (request : Request) : Incoming :=
  { request, wantReply := request.wantsReply }

end Gatehouse.Relay
