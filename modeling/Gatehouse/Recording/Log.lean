import Gatehouse.OsError
import Gatehouse.Recording.Frame

/-!
# Session logs

What is recorded is first put into a queue and then written by a writer of its own, so that a slow
disk does not hold up the relay. A write that fails does not stop the session: it is lost, and later
records are written again. Each record is one write, and how each write ends is the disk's choice.
-/

namespace Gatehouse.Recording

open Time (Unix)

/-! ## Streams -/

/-- How one direction of a session is recorded. -/
inductive Stream where
  | disabled
  /-- As timed frames. -/
  | framed
  /-- As text with a label. -/
  | labelled (label : String)
deriving DecidableEq

/-- What is recorded of a payload. Nothing is recorded of an empty one. -/
def Stream.record? (stream : Stream) (t : Unix) (payload : Bytes) : Option Bytes :=
  if payload.isEmpty then none
  else match stream with
    | .disabled => none
    | .framed => some (frame t payload)
    | .labelled label => some (Recording.labelled label payload)

/-- What is recorded of a payload with a line end after it. -/
def Stream.recordLine? (stream : Stream) (t : Unix) (payload : Bytes) : Option Bytes :=
  stream.record? t (payload ++ [10])

/-! ## The writer -/

/-- How a write ends. -/
inductive WriteOutcome where
  | written
  /-- It fails after some of its bytes have reached the file. -/
  | failed (reached : Nat)
  /-- The writer itself dies. -/
  | crashed
deriving DecidableEq

/-- A write that has been tried. -/
inductive Attempt where
  | written (bytes : Bytes)
  | failed (bytes : Bytes) (reached : Nat)
deriving DecidableEq

/-- The part of a write that is in the file. -/
def Attempt.inFile : Attempt → Bytes
  | .written bytes => bytes
  | .failed bytes reached => bytes.take reached

/-- The log of a session: the records that wait for the writer, the writes so far, and whether the
writer lives. -/
structure Log where
  queued : List Bytes := []
  attempts : List Attempt := []
  alive : Bool := true
deriving DecidableEq

namespace Log

/-- How many records the queue takes before recording has to wait. -/
def queueDepth : Nat := 64

/-- Puts a record into the queue. A record for a dead writer is lost. -/
def append (log : Log) (record : Option Bytes) : Log :=
  match record with
  | none => log
  | some bytes => if log.alive then { log with queued := log.queued ++ [bytes] } else log

/-- Writes the oldest record of the queue. -/
def write (log : Log) (outcome : WriteOutcome) : Log :=
  match log.queued with
  | [] => log
  | bytes :: rest =>
    match outcome with
    | .written => { log with queued := rest, attempts := log.attempts ++ [.written bytes] }
    | .failed reached =>
      { log with queued := rest, attempts := log.attempts ++ [.failed bytes reached] }
    | .crashed => { log with queued := [], alive := false }

/-- What is in the file. -/
def file (log : Log) : Bytes :=
  log.attempts.flatMap Attempt.inFile

/-- The disk's behaviour: how each write ends, counted from one, and whether flushing fails. -/
structure Disk where
  write : Nat → WriteOutcome := fun _ => .written
  flushFails : Bool := false

/-- The disk once `n` writes have ended. -/
def Disk.after (disk : Disk) (n : Nat) : Disk :=
  { disk with write := fun k => disk.write (n + k) }

/-- Writes records until the queue is empty; `n` bounds their number. -/
def drainAtMost (disk : Disk) : (n : Nat) → Log → Log
  | 0, log => log
  | n + 1, log =>
    if log.queued.isEmpty then log
    else drainAtMost disk n (log.write (disk.write (log.attempts.length + 1)))

/-- Writes all records of the queue. -/
def drain (log : Log) (disk : Disk) : Log :=
  drainAtMost disk log.queued.length log

/-- Waits until everything has been written. -/
def flush (log : Log) (disk : Disk) : Log × Except OsError Unit :=
  let log := log.drain disk
  if !log.alive then (log, .error .writerGone)
  else if disk.flushFails then (log, .error (.refused "flush refused"))
  else (log, .ok ())

end Log

end Gatehouse.Recording
