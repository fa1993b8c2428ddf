import Gatehouse.Rehearsal.Named
import Gatehouse.Rehearsal.Pipe

/-!
# Rehearsing a recording

A session log over a disk that follows a script, and ends that are recorded on the way to them.
Everything is recorded at the beginning of 1970.
-/

namespace Gatehouse.Rehearsal

open Recording
open Relay (Chunk)

/-- A disk on which the writes with some numbers fail or kill the writer. -/
def scriptedDisk (failing crashing : List Nat) (flushFails : Bool) : Log.Disk where
  write n := if n ∈ crashing then .crashed else if n ∈ failing then .failed 0 else .written
  flushFails := flushFails

/-- An end, and how what is written to it is recorded, if at all. -/
structure RecordedEnd where
  stream : Option Stream
  inner : End
  /-- How many logs had died when the end was set up. -/
  log : Nat := 0

/-- A log with the ends that are recorded in it. A log whose writer has died can be replaced, but
the ends that were set up before stay with the dead one. -/
structure Recorder where
  /-- A disabled log records nothing. -/
  enabled : Bool := true
  disk : Log.Disk := {}
  log : Log := {}
  /-- The writes of the logs that have died, without those that killed them. -/
  past : List Attempt := []
  /-- How many logs have died. -/
  deaths : Nat := 0
  /-- How many writes have been reported. -/
  reported : Nat := 0
  ends : List (String × RecordedEnd) := []

namespace Recorder

/-- All writes so far. -/
def attempts (r : Recorder) : List Attempt :=
  r.past ++ r.log.attempts

/-- What is in the file. -/
def file (r : Recorder) : Bytes :=
  r.attempts.flatMap Attempt.inFile

/-- The disk as the current log meets it. -/
def remainingDisk (r : Recorder) : Log.Disk :=
  r.disk.after (r.past.length + r.deaths)

/-- Puts a record into the log. -/
def append (r : Recorder) (record : Option Bytes) : Recorder :=
  if r.enabled then { r with log := r.log.append record } else r

/-- Records some bytes. -/
def record (r : Recorder) (stream : Stream) (payload : Bytes) : Recorder :=
  r.append (stream.record? ⟨0, 0⟩ payload)

/-- Records a line. -/
def recordLine (r : Recorder) (stream : Stream) (payload : Bytes) : Recorder :=
  r.append (stream.recordLine? ⟨0, 0⟩ payload)

/-- Waits until everything is written; gives also the writes that have not been reported yet. -/
def flush (r : Recorder) : Recorder × Except OsError Unit × List Attempt :=
  let (log, result) := r.log.flush r.remainingDisk
  let r := { r with log }
  ({ r with reported := r.attempts.length }, if r.enabled then result else .ok (),
    r.attempts.drop r.reported)

/-- Opens the log again. A log that lives goes on. -/
def reopen (r : Recorder) : Recorder :=
  let log := r.log.drain r.remainingDisk
  if log.alive then { r with log }
  else { r with log := {}, past := r.past ++ log.attempts, deaths := r.deaths + 1 }

/-- Has what is written to an end recorded. -/
def wrap (r : Recorder) (name : String) (stream : Option Stream) (inner : End) : Recorder :=
  { r with ends := overlay r.ends name { stream, inner, log := r.deaths } }

/-- Writes a block of data to an end, after recording it. -/
def write (r : Recorder) (name : String) (chunk : Chunk) :
    Option (Recorder × List Seen × Except String Unit) := do
  let e ← r.ends.lookup name
  let r := match e.stream with
    | some stream => if e.log = r.deaths then r.record stream chunk.data else r
    | none => r
  let (inner, seen, result) := e.inner.write chunk
  return ({ r with ends := overlay r.ends name { e with inner } }, seen, result)

/-- Half-closes an end. -/
def halfClose (r : Recorder) (name : String) : Option (List Seen × Except String Unit) := do
  return (← r.ends.lookup name).inner.halfClose

end Recorder

end Gatehouse.Rehearsal
