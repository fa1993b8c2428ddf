import Gatehouse.Relay.Error
import Gatehouse.Relay.Request

/-!
# The pipe between two channels

Four tasks relay a channel: for each side one that copies its data to the other side, and one that
forwards its requests there. A control loop collects what becomes of them and is alone in closing
channels:

* a copying task that reaches the end of data half-closes the other side and is done;
* once both tasks that read from a side are done, the other side is closed, after its half-close;
* once all four tasks are done, both sides are closed and the pipe returns;
* the first error stops all tasks, closes both sides and is returned.

The pipe is a machine whose steps are labelled with what each call to an endpoint came to, so that a
list of labels is at once a schedule of the tasks, the behaviour of the endpoints, and the log of
what passed through.
-/

namespace Gatehouse.Relay

/-- The tasks of a pipe, each named for what it relays and the side it reads from. -/
inductive PipeTask where
  | data (source : Side)
  | requests (source : Side)
deriving DecidableEq, Repr

/-- What a copying task is doing. -/
inductive Copying where
  /-- It waits for the next block. -/
  | reading
  /-- It puts a block into the recording. -/
  | recording (chunk : Chunk)
  /-- It writes a block to the other side. -/
  | writing (chunk : Chunk)
  /-- It tells the other side that no more data will come. -/
  | halfClosing
  /-- It is finished and has not said so yet. -/
  | reporting (result : Except RelayError Unit)
  /-- It has ended. -/
  | gone

/-- What a forwarding task is doing. -/
inductive Forwarding where
  /-- It waits for the next request. -/
  | waiting
  /-- It puts a command into the recording. -/
  | recording (request : Incoming)
  /-- It sends a request to the other side and waits for its answer. -/
  | sending (request : Incoming)
  /-- It passes the answer back. -/
  | replying (accepted : Bool)
  /-- It is finished and has not said so yet. -/
  | reporting (result : Except RelayError Unit)
  /-- It has ended. -/
  | gone

/-- What the control loop is doing. -/
inductive Control where
  /-- It waits for a task to report. -/
  | waiting
  /-- It has sides to close, and then goes on or returns. -/
  | closing (todo : List Side) (result : Option (Except RelayError Unit))
  /-- The pipe has returned. -/
  | returned (result : Except RelayError Unit)

/-- What a pipe records. -/
structure PipeRecording where
  /-- Whether the data read from a side is recorded before it is passed on. -/
  data : Side → Bool := fun _ => false
  /-- Whether the commands that the user executes are recorded. -/
  commands : Bool := true

/-- A pipe at some moment. -/
structure Pipe where
  recording : PipeRecording := {}
  /-- The task that copies from a side. -/
  copying : Side → Copying := fun _ => .reading
  /-- The task that forwards requests from a side. -/
  forwarding : Side → Forwarding := fun _ => .waiting
  /-- Errors that tasks have reported, oldest first. -/
  errors : List RelayError := []
  /-- Tasks that have reported success, oldest first. -/
  completions : List PipeTask := []
  /-- Tasks whose success the control loop has seen. -/
  finished : PipeTask → Bool := fun _ => false
  /-- Sides that the control loop has closed, or is closing. -/
  closed : Side → Bool := fun _ => false
  control : Control := .waiting

/-- One step of a pipe, with what the endpoints' part in it came to. -/
inductive PipeAction where
  /-- The task copying from `source` reads; nothing means the end of data. -/
  | read (source : Side) (outcome : Except RelayError (Option Chunk))
  /-- The task copying from `source` records a block. -/
  | recorded (source : Side) (chunk : Chunk)
  /-- The task copying from `source` writes a block to the other side. -/
  | wrote (source : Side) (chunk : Chunk) (outcome : Except RelayError Unit)
  /-- The task copying from `source` half-closes the other side. -/
  | halfClosed (source : Side) (outcome : Except RelayError Unit)
  /-- The task forwarding from `source` takes a request; nothing means that none will come. -/
  | took (source : Side) (request : Option Incoming)
  /-- The task forwarding from the user records a command. -/
  | recordedCommand (command : Bytes)
  /-- The task forwarding from `source` sends a request to the other side and has the answer. -/
  | sent (source : Side) (request : Incoming) (outcome : Except RelayError Bool)
  /-- The task forwarding from `source` passes an answer back to it. -/
  | replied (source : Side) (accepted : Bool) (outcome : Except RelayError Unit)
  /-- A task reports what became of it. -/
  | reports (task : PipeTask)
  /-- A task dies without a report. -/
  | dies (task : PipeTask)
  /-- The control loop sees the oldest error. -/
  | seesError
  /-- The control loop sees the oldest success. -/
  | seesCompletion
  /-- The control loop finds that all tasks are gone and that nothing is reported. -/
  | seesNothing
  /-- The control loop has closed a side. -/
  | closed (side : Side)

namespace Pipe

/-- The pipe with another state of the task copying from a side. -/
def setCopying (p : Pipe) (source : Side) (state : Copying) : Pipe :=
  { p with copying := fun side => if side = source then state else p.copying side }

/-- The pipe with another state of the task forwarding from a side. -/
def setForwarding (p : Pipe) (source : Side) (state : Forwarding) : Pipe :=
  { p with forwarding := fun side => if side = source then state else p.forwarding side }

/-- Whether a task has ended. -/
def isGone (p : Pipe) : PipeTask → Bool
  | .data source => match p.copying source with | .gone => true | _ => false
  | .requests source => match p.forwarding source with | .gone => true | _ => false

/-- The result that a task is about to report. -/
def report? (p : Pipe) : PipeTask → Option (Except RelayError Unit)
  | .data source => match p.copying source with | .reporting result => some result | _ => none
  | .requests source =>
    match p.forwarding source with | .reporting result => some result | _ => none

/-- The pipe after a task has ended. -/
def endTask (p : Pipe) : PipeTask → Pipe
  | .data source => p.setCopying source .gone
  | .requests source => p.setForwarding source .gone

/-- Whether the control loop has seen the success of both tasks that read from a side. -/
def sideFinished (p : Pipe) (side : Side) : Bool :=
  p.finished (.data side) && p.finished (.requests side)

/-- The tasks of a pipe. -/
def tasks : List PipeTask :=
  [.data .inbound, .data .outbound, .requests .inbound, .requests .outbound]

/-- Closes those of some sides that are not closed yet, and then goes on or returns. -/
def startClosing (p : Pipe) (sides : List Side) (result : Option (Except RelayError Unit)) : Pipe :=
  match sides.filter fun side => !p.closed side, result with
  | [], none => { p with control := .waiting }
  | [], some result => { p with control := .returned result }
  | side :: todo, result =>
    { p with
      closed := fun s => if s = side then true else p.closed s
      control := .closing (side :: todo) result }

/-- The pipe ends with a result, once both sides are closed. -/
def conclude (p : Pipe) (result : Except RelayError Unit) : Pipe :=
  p.startClosing [.outbound, .inbound] (some result)

/-- The control loop has learnt that a task is done. -/
def noteCompletion (p : Pipe) (task : PipeTask) : Pipe :=
  let p := { p with finished := fun t => if t = task then true else p.finished t }
  if p.sideFinished .inbound && p.sideFinished .outbound then p.conclude (.ok ())
  else if p.sideFinished .inbound then p.startClosing [.outbound] none
  else if p.sideFinished .outbound then p.startClosing [.inbound] none
  else p

/-- What a copying task does with a block that it has read. -/
def afterRead (p : Pipe) (source : Side) (chunk : Chunk) : Copying :=
  if p.recording.data source then .recording chunk else .writing chunk

/-- What a forwarding task does with a request that it has taken. -/
def afterTake (p : Pipe) (source : Side) (request : Incoming) : Forwarding :=
  match source, request.request with
  | .inbound, .exec _ => if p.recording.commands then .recording request else .sending request
  | _, _ => .sending request

/-- The steps of copying tasks. -/
def copyStep? (p : Pipe) : PipeAction → Option Pipe
  | .read source outcome =>
    match p.copying source with
    | .reading =>
      some <| p.setCopying source <| match outcome with
        | .error e => .reporting (.error e)
        | .ok none => .halfClosing
        | .ok (some chunk) => p.afterRead source chunk
    | _ => none
  | .recorded source chunk =>
    match p.copying source with
    | .recording held =>
      if chunk = held then some (p.setCopying source (.writing held)) else none
    | _ => none
  | .wrote source chunk outcome =>
    match p.copying source with
    | .writing held =>
      if chunk = held then
        some <| p.setCopying source <| match outcome with
          | .error e => .reporting (.error e)
          | .ok () => .reading
      else none
    | _ => none
  | .halfClosed source outcome =>
    match p.copying source with
    | .halfClosing => some (p.setCopying source (.reporting outcome))
    | _ => none
  | _ => none

/-- The steps of forwarding tasks. -/
def forwardStep? (p : Pipe) : PipeAction → Option Pipe
  | .took source request =>
    match p.forwarding source with
    | .waiting =>
      some <| p.setForwarding source <| match request with
        | none => .reporting (.ok ())
        | some request => p.afterTake source request
    | _ => none
  | .recordedCommand command =>
    match p.forwarding .inbound with
    | .recording held =>
      if held.request = .exec command then some (p.setForwarding .inbound (.sending held)) else none
    | _ => none
  | .sent source request outcome =>
    match p.forwarding source with
    | .sending held =>
      if request = held then
        some <| p.setForwarding source <| match outcome with
          | .error e => .reporting (.error e)
          | .ok accepted => if held.wantReply then .replying accepted else .waiting
      else none
    | _ => none
  | .replied source accepted outcome =>
    match p.forwarding source with
    | .replying held =>
      if accepted = held then
        some <| p.setForwarding source <| match outcome with
          | .error e => .reporting (.error e)
          | .ok () => .waiting
      else none
    | _ => none
  | _ => none

/-- The steps of reporting, and of dying without a report. -/
def reportStep? (p : Pipe) : PipeAction → Option Pipe
  | .reports task =>
    match p.report? task with
    | some (.ok ()) => some { p.endTask task with completions := p.completions ++ [task] }
    | some (.error e) => some { p.endTask task with errors := p.errors ++ [e] }
    | none => none
  | .dies task => if p.isGone task then none else some (p.endTask task)
  | _ => none

/-- The steps of the control loop. -/
def controlStep? (p : Pipe) : PipeAction → Option Pipe
  | .seesError =>
    match p.control, p.errors with
    | .waiting, e :: rest =>
      let p := tasks.foldl endTask { p with errors := rest }
      some (p.conclude (.error e))
    | _, _ => none
  | .seesCompletion =>
    match p.control, p.completions with
    | .waiting, task :: rest => some ({ p with completions := rest }.noteCompletion task)
    | _, _ => none
  | .seesNothing =>
    match p.control, p.errors, p.completions with
    | .waiting, [], [] =>
      if tasks.all p.isGone then
        some (p.conclude (.error (.task "relay tasks exited unexpectedly")))
      else none
    | _, _, _ => none
  | .closed side =>
    match p.control with
    | .closing (next :: todo) result =>
      if side = next then some (p.startClosing todo result) else none
    | _ => none
  | _ => none

/-- One step of the pipe, where it can take it. -/
def step? (p : Pipe) (action : PipeAction) : Option Pipe :=
  p.copyStep? action <|> p.forwardStep? action <|> p.reportStep? action <|> p.controlStep? action

/-- The pipe after some steps, where it can take them all. -/
def run? (p : Pipe) : List PipeAction → Option Pipe
  | [] => some p
  | action :: more => do (← p.step? action).run? more

/-- What the pipe has returned. -/
def result? (p : Pipe) : Option (Except RelayError Unit) :=
  match p.control with
  | .returned result => some result
  | _ => none

end Pipe

end Gatehouse.Relay
