import Gatehouse.Relay.Error
import Gatehouse.Relay.Queue
import Gatehouse.Relay.Request

/-!
# Writing to a host

User data goes straight onto the channel to the host, past its owner, through one of two byte pipes:
ordinary data through one, extended data of whatever type through the other, which the channel
carries as standard error output. A write waits while its pipe is full. Once the channel is closed,
writes that wait and later writes are dropped.
-/

namespace Gatehouse.Relay

/-! ## Lanes -/

/-- The ways to a host. -/
inductive Lane where
  | output
  | error
deriving DecidableEq, Repr

namespace Lane

/-- The type code of standard error output. -/
def errorCode : UInt32 := 1

/-- The lane of a block of user data. -/
def ofChunk (chunk : Chunk) : Lane :=
  if chunk.ext.isSome then error else output

/-- What the host receives of bytes that pass through a lane. -/
def carry : Lane → Bytes → Chunk
  | output, data => { data }
  | error, data => { data, ext := some errorCode }

end Lane

/-! ## Byte pipes -/

/-- A byte pipe with room for `capacity` bytes. -/
structure BytePipe where
  capacity : Nat
  buffered : Bytes := []
  /-- The writing end is shut. -/
  shut : Bool := false
  /-- The reading end is gone. -/
  abandoned : Bool := false
deriving DecidableEq

namespace BytePipe

/-- Whether writing fails. -/
def isBroken (p : BytePipe) : Bool :=
  p.shut || p.abandoned

/-- Takes as many bytes as fit, and gives back the others. -/
def accept (p : BytePipe) (bytes : Bytes) : BytePipe × Bytes :=
  let room := p.capacity - p.buffered.length
  ({ p with buffered := p.buffered ++ bytes.take room }, bytes.drop room)

/-- The reading end goes away, and with it what it has not read. -/
def abandon (p : BytePipe) : BytePipe :=
  { p with buffered := [], abandoned := true }

/-- Takes out at most so many bytes. Asking for none is answered like the end. -/
def read (p : BytePipe) (most : Nat) : BytePipe × Taken Bytes :=
  if most = 0 then (p, .ended)
  else if p.buffered.isEmpty then (p, if p.isBroken then .ended else .waiting)
  else ({ p with buffered := p.buffered.drop most }, .item (p.buffered.take most))

end BytePipe

/-! ## The writer -/

/-- What is known of the channel under a writer. -/
inductive ChannelState where
  | running
  | closed
  /-- Whoever would tell that it is closed is gone. -/
  | unwatched
deriving DecidableEq

/-- What a writer has to do. -/
inductive WriterTask where
  | write (lane : Lane) (rest : Bytes)
  | shutDown
deriving DecidableEq

/-- A writer to a host's channel. -/
structure Writer where
  pipe : Lane → BytePipe
  channel : ChannelState := .running
  /-- The tasks that are not done, oldest first. -/
  waiting : List WriterTask := []

namespace Writer

/-- A writer over two empty pipes. -/
def ofCapacities (output error : Nat) : Writer :=
  { pipe := fun
      | .output => { capacity := output }
      | .error => { capacity := error } }

/-- The writer with another state of one pipe. -/
def setPipe (w : Writer) (lane : Lane) (p : BytePipe) : Writer :=
  { w with pipe := fun l => if l = lane then p else w.pipe l }

/-- The failure of writing to a broken pipe. -/
def brokenPipe : RelayError :=
  .send .outbound "broken pipe"

/-- Works on a task until it is done or has to wait, in which case what is left of it is given. -/
def attempt (w : Writer) (task : WriterTask) : Writer × (Except RelayError Unit ⊕ WriterTask) :=
  if w.channel = .closed then (w, .inl (.ok ()))
  else
    match task with
    | .shutDown => (w.setPipe .output { w.pipe .output with shut := true }, .inl (.ok ()))
    | .write lane bytes =>
      if bytes.isEmpty then (w, .inl (.ok ()))
      else if (w.pipe lane).isBroken then (w, .inl (.error brokenPipe))
      else
        let (pipe, rest) := (w.pipe lane).accept bytes
        let w := w.setPipe lane pipe
        if rest.isEmpty || w.channel = .unwatched then (w, .inl (.ok ()))
        else (w, .inr (.write lane rest))

/-- Works on tasks in order until one has to wait; gives the results of those that are done. -/
def workOn (w : Writer) : List WriterTask → Writer × List (Except RelayError Unit)
  | [] => ({ w with waiting := [] }, [])
  | task :: more =>
    match w.attempt task with
    | (w, .inr task) => ({ w with waiting := task :: more }, [])
    | (w, .inl result) =>
      let (w, results) := w.workOn more
      (w, result :: results)

/-- Works on all tasks. -/
def work (w : Writer) : Writer × List (Except RelayError Unit) :=
  w.workOn w.waiting

/-- Adds a task. -/
def add (w : Writer) (task : WriterTask) : Writer :=
  { w with waiting := w.waiting ++ [task] }

/-- Adds the task of writing a block of user data. -/
def addChunk (w : Writer) (chunk : Chunk) : Writer :=
  w.add (.write (Lane.ofChunk chunk) chunk.data)

end Writer

end Gatehouse.Relay
