import Gatehouse.Recording.Log
import Gatehouse.Relay.Pipe

/-!
# Rehearsing a pipe

A pipe between two ends that follow a script: what each end sends, and which of the calls to it fail.
Whenever something new has been sent, the pipe runs until it stands still, and what reaches the two
ends is written down.
-/

namespace Gatehouse.Rehearsal

open Recording (Stream)
open Relay

/-! ## Ends -/

/-- What the data of an end brings to the task that reads it. -/
inductive Cue where
  | chunk (chunk : Chunk)
  /-- Reading fails. -/
  | broken
  /-- The task that reads dies. -/
  | crash
  /-- No more data will come. -/
  | ended

/-- What an end says to a request. -/
inductive Answer where
  | accept
  | refuse
  /-- Sending the request fails. -/
  | fail
deriving DecidableEq

/-- An end that follows a script. -/
structure End where
  /-- What it has sent and nobody has read. -/
  data : List Cue := []
  /-- The requests it has sent; nothing stands for their end. -/
  requests : List (Option Incoming) := []
  /-- What it says to requests, one after the other; then it accepts them. -/
  answers : List Answer := []
  /-- The number, from one, of the write that fails. -/
  failingWrite : Option Nat := none
  /-- How many writes there have been. -/
  writes : Nat := 0
  failsEof : Bool := false
  failsReply : Bool := false

/-- What is seen of a call to an end. -/
inductive Seen where
  | data (chunk : Chunk)
  | eof
  | request (request : Request) (wantReply : Bool)
  | reply (accepted : Bool)
  | close
deriving DecidableEq

namespace End

/-- The failure of a call, in the name of the end that it is made to. -/
def failure (name : String) (reason : String) : String :=
  "Send failed on " ++ name ++ " channel: " ++ reason

/-- Writes a block of data. -/
def write (e : End) (chunk : Chunk) : End × List Seen × Except String Unit :=
  let e := { e with writes := e.writes + 1 }
  if e.failingWrite = some e.writes then (e, [], .error "broken pipe")
  else (e, [.data chunk], .ok ())

/-- Half-closes the end. -/
def halfClose (e : End) : List Seen × Except String Unit :=
  if e.failsEof then ([], .error "eof refused") else ([.eof], .ok ())

/-- Passes an answer back. -/
def reply (e : End) (accepted : Bool) : List Seen × Except String Unit :=
  if e.failsReply then ([], .error "reply refused") else ([.reply accepted], .ok ())

/-- Sends a request. -/
def request (e : End) (incoming : Incoming) : End × List Seen × Except String Bool :=
  let seen := [.request incoming.request incoming.wantReply]
  match e.answers with
  | [] => (e, seen, .ok true)
  | .accept :: answers => ({ e with answers }, seen, .ok true)
  | .refuse :: answers => ({ e with answers }, seen, .ok false)
  | .fail :: answers => ({ e with answers }, seen, .error "request refused")

/-- How much a pipe has to do for what the end has sent. -/
def load (e : End) : Nat :=
  e.data.length + e.requests.length

end End

/-! ## Plays -/

/-- A pipe with its two ends and what has been seen of it. -/
structure Play where
  pipe : Pipe
  ends : Side → End
  /-- How commands are recorded. -/
  commands : Stream := .disabled
  /-- What has been recorded. -/
  recorded : List Bytes := []
  /-- What the ends have seen. -/
  seen : List (Side × Seen) := []

namespace Play

/-- The play with another state of one end. -/
def setEnd (play : Play) (side : Side) (e : End) : Play :=
  { play with ends := fun s => if s = side then e else play.ends s }

/-- The play after an end has seen something. -/
def note (play : Play) (side : Side) (seen : List Seen) : Play :=
  { play with seen := play.seen ++ seen.map fun s => (side, s) }

/-- A failure at a side. -/
def blame (side : Side) {α : Type} (result : Except String α) : Except RelayError α :=
  result.mapError (.send side)

/-- What the task that copies from a side does next, unless it has to wait. -/
def copying? (play : Play) (source : Side) : Option (Play × PipeAction) :=
  let e := play.ends source
  match play.pipe.copying source with
  | .reading =>
    match e.data with
    | [] => none
    | cue :: rest =>
      some (play.setEnd source { e with data := rest }, match cue with
        | .chunk chunk => .read source (.ok (some chunk))
        | .broken => .read source (.error (.closed source))
        | .crash => .dies (.data source)
        | .ended => .read source (.ok none))
  | .recording chunk => some (play, .recorded source chunk)
  | .writing chunk =>
    let (target, seen, result) := (play.ends source.other).write chunk
    some ((play.setEnd source.other target).note source.other seen,
      .wrote source chunk (blame source.other result))
  | .halfClosing =>
    let (seen, result) := (play.ends source.other).halfClose
    some (play.note source.other seen, .halfClosed source (blame source.other result))
  | .reporting _ => some (play, .reports (.data source))
  | .gone => none

/-- What the task that forwards requests from a side does next, unless it has to wait. -/
def forwarding? (play : Play) (source : Side) : Option (Play × PipeAction) :=
  let e := play.ends source
  match play.pipe.forwarding source with
  | .waiting =>
    match e.requests with
    | [] => none
    | request :: rest =>
      some (play.setEnd source { e with requests := rest }, .took source request)
  | .recording incoming =>
    match incoming.request with
    | .exec command =>
      let record := play.commands.recordLine? ⟨0, 0⟩ command
      some ({ play with recorded := play.recorded ++ record.toList }, .recordedCommand command)
    | _ => none
  | .sending incoming =>
    let (target, seen, result) := (play.ends source.other).request incoming
    some ((play.setEnd source.other target).note source.other seen,
      .sent source incoming (blame source.other result))
  | .replying accepted =>
    let (seen, result) := e.reply accepted
    some (play.note source seen, .replied source accepted (blame source result))
  | .reporting _ => some (play, .reports (.requests source))
  | .gone => none

/-- What the control loop does next, unless it has to wait. -/
def control? (play : Play) : Option (Play × PipeAction) :=
  match play.pipe.control with
  | .waiting =>
    if !play.pipe.errors.isEmpty then some (play, .seesError)
    else if !play.pipe.completions.isEmpty then some (play, .seesCompletion)
    else if Pipe.tasks.all play.pipe.isGone then some (play, .seesNothing)
    else none
  | .closing (side :: _) _ => some (play.note side [.close], .closed side)
  | .closing [] _ | .returned _ => none

/-- The next step, unless everything waits. -/
def next? (play : Play) : Option (Play × PipeAction) :=
  play.control? <|> play.copying? .inbound <|> play.copying? .outbound <|>
    play.forwarding? .inbound <|> play.forwarding? .outbound

/-- Takes at most `n` steps. -/
def runAtMost : (n : Nat) → Play → Play
  | 0, play => play
  | n + 1, play =>
    match play.next? with
    | none => play
    | some (play, action) =>
      match play.pipe.step? action with
      | none => play
      | some pipe => runAtMost n { play with pipe }

/-- More steps than the pipe can take without new input. -/
def stepBound (play : Play) : Nat :=
  5 * ((play.ends .inbound).load + (play.ends .outbound).load) + 40

/-- Runs until everything waits. -/
def run (play : Play) : Play :=
  runAtMost play.stepBound play

/-- An end sends something. -/
def cue (play : Play) (side : Side) (cue : Cue) : Play :=
  play.setEnd side { play.ends side with data := (play.ends side).data ++ [cue] }

/-- An end sends a request, or ends them. -/
def request (play : Play) (side : Side) (request : Option Incoming) : Play :=
  play.setEnd side { play.ends side with requests := (play.ends side).requests ++ [request] }

end Play

end Gatehouse.Rehearsal
