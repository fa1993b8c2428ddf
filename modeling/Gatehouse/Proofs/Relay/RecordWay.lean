import Gatehouse.Proofs.Relay.DataWay
import Gatehouse.Recording.Streams

/-!
# From a task to the file of a recording

What is recorded on the way to the file, and what of it the recording tasks have passed on.

* `Log.Sound.file_flush`: as long as writing succeeds, a flushed file holds what had been written and
  after it what was waiting.
* `Pipe.Keeps.step`: a task that records a block before it passes it on has always recorded what it has
  passed on, in the same order, and at most the block that it holds besides. Once it has come to the end
  of its data the two are the same.
* `Pipe.Notes.step`: the task that forwards the user's requests has recorded each command that it has
  taken once, but for the one that it may be about to record.

Proof. All three go by the steps: a write takes the oldest record from the queue to the file, a task that
has recorded a block can only pass on that block or end, and a task that has taken a command can only
record it or end.
-/

namespace Gatehouse

namespace Recording

open Time (Unix)

/-! ### Records -/

/-- How a payload stands in a recording. -/
def Stream.encode (stream : Stream) (t : Unix) (payload : Bytes) : Bytes :=
  match stream with
  | .disabled => []
  | .framed => frame t payload
  | .labelled label => Recording.labelled label payload

theorem Stream.record?_eq (stream : Stream) (t : Unix) (payload : Bytes) :
    stream.record? t payload =
      if payload.isEmpty ∨ stream = .disabled then none else some (stream.encode t payload) := by
  unfold record?
  by_cases hempty : payload.isEmpty = true
  · rw [if_pos hempty, if_pos (.inl hempty)]
  · rw [if_neg hempty]
    cases stream with
    | disabled => rw [if_pos (.inr rfl)]
    | framed | labelled => simp [hempty, encode]

/-! ### The log -/

namespace Log

variable {log : Log} {disk : Disk}

/-- All writes so far have succeeded; with what waits, these are the records of the log. -/
structure Sound (log : Log) (records : List Bytes) : Prop where
  alive : log.alive = true
  whole : ∃ written, log.attempts = written.map .written ∧ written ++ log.queued = records

theorem Sound.append {records : List Bytes} (h : log.Sound records) (record : Option Bytes) :
    (log.append record).Sound (records ++ record.toList) := by
  obtain ⟨written, hattempts, hwhole⟩ := h.whole
  cases record with
  | none =>
    rw [Option.toList_none, List.append_nil]
    exact h
  | some bytes =>
    rw [Log.append, if_pos h.alive]
    refine ⟨h.alive, written, hattempts, ?_⟩
    rw [← List.append_assoc, hwhole]
    rfl

theorem Sound.write {records : List Bytes} (h : log.Sound records) : (log.write .written).Sound records := by
  obtain ⟨written, hattempts, hwhole⟩ := h.whole
  unfold Log.write
  split
  · exact h
  · next bytes rest hqueued =>
    refine ⟨h.alive, written ++ [bytes], ?_, ?_⟩
    · rw [hattempts, List.map_append]
      rfl
    · rw [← hwhole, hqueued, List.append_assoc]
      rfl

theorem Sound.drainAtMost (hdisk : ∀ n, disk.write n = .written) {n : Nat} : ∀ {log : Log}
    {records : List Bytes}, log.Sound records → log.queued.length ≤ n →
      (log.drainAtMost disk n).Sound records ∧ (log.drainAtMost disk n).queued = [] := by
  induction n with
  | zero =>
    intro log records h hlength
    exact ⟨h, List.length_eq_zero_iff.mp (Nat.le_zero.mp hlength)⟩
  | succ n ih =>
    intro log records h hlength
    rw [Log.drainAtMost]
    by_cases hempty : log.queued.isEmpty = true
    · rw [if_pos hempty]
      exact ⟨h, List.isEmpty_iff.mp hempty⟩
    · rw [if_neg hempty, hdisk]
      refine ih h.write ?_
      unfold Log.write
      split
      · next hqueued => simp [hqueued] at hempty
      · next bytes rest hqueued =>
        rw [hqueued] at hlength
        exact Nat.le_of_succ_le_succ hlength

end Log

end Recording

namespace Relay

/-! ### Recording and passing on -/

def Request.exec? : Request → Option Bytes
  | .exec command => some command
  | _ => none

/-- The command that a step of a pipe takes from the user. -/
def PipeAction.commandTaken : PipeAction → List Bytes
  | .took .inbound (some incoming) => incoming.request.exec?.toList
  | _ => []

def PipeAction.commandRecorded : PipeAction → List Bytes
  | .recordedCommand command => [command]
  | _ => []

/-- The block that a step of a pipe records on the way from a side. -/
def PipeAction.blockRecorded (source : Side) : PipeAction → List Chunk
  | .recorded side chunk => if side = source then [chunk] else []
  | _ => []

/-- The block that a step of a pipe hands to the other side. -/
def PipeAction.blockHanded (source : Side) : PipeAction → List Chunk
  | .wrote side chunk _ => if side = source then [chunk] else []
  | _ => []

/-- Whether a copying task is still at the data of its side. -/
def Copying.isCopying : Copying → Bool
  | .reading | .recording _ | .writing _ => true
  | _ => false

/-- What a copying task has recorded and what it has handed on. -/
def Ahead (recorded handed : List Chunk) : Copying → Prop
  | .reading | .recording _ | .halfClosing => recorded = handed
  | .writing chunk => recorded = handed ++ [chunk]
  | .reporting _ | .gone => handed <+: recorded

theorem Ahead.isPrefix {recorded handed : List Chunk} {state : Copying}
    (h : Ahead recorded handed state) : handed <+: recorded := by
  cases state with
  | reading | recording | halfClosing => exact h ▸ List.prefix_refl _
  | writing chunk => exact h ▸ List.prefix_append _ _
  | reporting | gone => exact h

namespace Pipe

variable {p p' : Pipe} {action : PipeAction} {source : Side} {recorded handed : List Chunk}

/-- A task that records has recorded what it has handed on, and after it has come through the same. -/
structure Keeps (p : Pipe) (source : Side) (recorded handed : List Chunk) : Prop where
  ahead : Ahead recorded handed (p.copying source)
  through : p.Through source → recorded = handed

/-- A task that only takes a step at another place keeps what it has. -/
theorem Keeps.rests (h : p.Keeps source recorded handed) (hstep : Step p action p')
    (hother : action.worker? ≠ some (.data source)) : p'.Keeps source recorded handed := by
  constructor
  · rcases unmoved_of_step hstep hother with hsame | hgone
    · rw [show p'.copying source = p.copying source from hsame]
      exact h.ahead
    · rw [isGone_data.mp hgone]
      exact h.ahead.isPrefix
  · intro hthrough
    rcases through_of_step hstep hthrough with hold | rfl
    · exact h.through hold
    · exact absurd rfl hother

/-- A task that is still at its data has not come through. -/
theorem keeps_of_work (horderly : Orderly p) (hstep : Step p action p') {state : Copying}
    (hstate : p.copying source = state) (hwork : state.isCopying = true)
    (hread : action.reading? source ≠ some none) (hahead : Ahead recorded handed (p'.copying source)) :
    p'.Keeps source recorded handed := by
  refine ⟨hahead, fun hthrough => ?_⟩
  rcases through_of_step hstep hthrough with hold | heq
  · rcases through_cases horderly hold with hno | hno | hno
    · rw [← hstate, hno] at hwork
      cases hwork
    · rw [← hstate, hno] at hwork
      cases hwork
    · rw [← hstate, hno] at hwork
      cases hwork
  · rw [heq] at hread
    exact absurd (if_pos rfl) hread

theorem Keeps.step (h : p.Keeps source recorded handed) (hrecords : p.recording.data source = true)
    (horderly : Orderly p) (hstep : Step p action p') :
    p'.Keeps source (recorded ++ action.blockRecorded source) (handed ++ action.blockHanded source) := by
  -- Any other step leaves the task where it is, or ends it, and then a prefix is all that is left to say.
  have hall := hstep
  by_cases hmine : action.worker? = some (.data source)
  · have hahead := h.ahead
    cases hstep with
    | readChunk hstate =>
      cases hmine
      rw [hstate] at hahead
      refine keeps_of_work horderly hall hstate rfl (by simp [PipeAction.reading?]) ?_
      rw [copying_setCopying, afterRead, if_pos hrecords]
      simpa [Ahead, PipeAction.blockRecorded, PipeAction.blockHanded] using hahead
    | readEnd hstate =>
      cases hmine
      rw [hstate] at hahead
      have hsame : recorded = handed := hahead
      refine ⟨?_, fun _ => ?_⟩
      · rw [copying_setCopying]
        simpa [Ahead, PipeAction.blockRecorded, PipeAction.blockHanded] using hsame
      · simpa [PipeAction.blockRecorded, PipeAction.blockHanded] using hsame
    | readError hstate =>
      cases hmine
      rw [hstate] at hahead
      have hsame : recorded = handed := hahead
      refine keeps_of_work horderly hall hstate rfl (by simp [PipeAction.reading?]) ?_
      rw [copying_setCopying, hsame]
      exact List.prefix_refl _
    | @recorded side chunk hstate =>
      cases hmine
      rw [hstate] at hahead
      have hsame : recorded = handed := hahead
      refine keeps_of_work horderly hall hstate rfl (by simp [PipeAction.reading?]) ?_
      rw [copying_setCopying]
      simp [Ahead, PipeAction.blockRecorded, PipeAction.blockHanded, hsame]
    | @wrote side chunk hstate =>
      cases hmine
      rw [hstate] at hahead
      have hsame : recorded = handed ++ [chunk] := hahead
      refine keeps_of_work horderly hall hstate rfl (by simp [PipeAction.reading?]) ?_
      rw [copying_setCopying]
      simp [Ahead, PipeAction.blockRecorded, PipeAction.blockHanded, hsame]
    | @writeError side chunk e hstate =>
      cases hmine
      rw [hstate] at hahead
      have hsame : recorded = handed ++ [chunk] := hahead
      refine keeps_of_work horderly hall hstate rfl (by simp [PipeAction.reading?]) ?_
      rw [copying_setCopying]
      simp [Ahead, PipeAction.blockRecorded, PipeAction.blockHanded, hsame]
    | @halfClosed side result hstate =>
      cases hmine
      rw [hstate] at hahead
      have hsame : recorded = handed := hahead
      refine ⟨?_, fun _ => ?_⟩
      · rw [copying_setCopying, hsame]
        exact List.prefix_refl _
      · simpa [PipeAction.blockRecorded, PipeAction.blockHanded] using hsame
    | _ => cases hmine
  · have hquiet : action.blockRecorded source = [] ∧ action.blockHanded source = [] := by
      cases hstep with
      | recorded | wrote | writeError =>
        have hne : ¬ _ = source := fun heq => hmine (heq ▸ rfl)
        exact ⟨by simp [PipeAction.blockRecorded, hne], by simp [PipeAction.blockHanded, hne]⟩
      | _ => exact ⟨rfl, rfl⟩
    rw [hquiet.1, hquiet.2, List.append_nil, List.append_nil]
    exact h.rests hall hmine

/-! ### Commands -/

theorem isGone_of_reported {task : PipeTask} (horderly : Orderly p) (h : p.Reported task) :
    p.isGone task = true :=
  h.elim (horderly.completions task) (horderly.finished task)

end Pipe

/-- Whether a forwarding task is still at the requests of its side. -/
def Forwarding.isForwarding : Forwarding → Bool
  | .reporting _ | .gone => false
  | _ => true

/-- What the task that forwards the user's requests has recorded of the commands that it has taken. -/
def Noted (taken recorded : List Bytes) : Forwarding → Prop
  | .recording incoming => taken = recorded ++ incoming.request.exec?.toList
  | .waiting | .sending _ | .replying _ | .reporting (.ok ()) => taken = recorded
  | .reporting (.error _) | .gone => recorded <+: taken

theorem Noted.isPrefix {taken noted : List Bytes} {state : Forwarding} (h : Noted taken noted state) : noted <+: taken := by
  cases state with
  | recording incoming => exact h ▸ List.prefix_append _ _
  | waiting | sending | replying => exact h ▸ List.prefix_refl _
  | reporting result =>
    cases result with
    | ok => exact h ▸ List.prefix_refl _
    | error => exact h
  | gone => exact h

namespace Pipe

variable {taken noted : List Bytes}

/-- The task has recorded the commands that it has taken, all of them once it has reported its success. -/
structure Notes (p : Pipe) (taken noted : List Bytes) : Prop where
  state : Noted taken noted (p.forwarding .inbound)
  reported : p.Reported (.requests .inbound) → taken = noted

theorem forwarding_setForwarding (p : Pipe) (source : Side) (state : Forwarding) :
    (p.setForwarding source state).forwarding source = state := by
  simp [setForwarding]

theorem Notes.rests (h : p.Notes taken noted) (hstep : Step p action p')
    (hother : action.worker? ≠ some (.requests .inbound)) : p'.Notes taken noted := by
  constructor
  · rcases unmoved_of_step hstep hother with hsame | hgone
    · rw [show p'.forwarding .inbound = p.forwarding .inbound from hsame]
      exact h.state
    · rw [isGone_requests.mp hgone]
      exact h.state.isPrefix
  · intro hreported
    rcases reported_of_step hstep hreported with hold | hreport
    · exact h.reported hold
    · have hstate := h.state
      rw [report?_requests hreport] at hstate
      exact hstate

/-- A task that is at work has not reported. -/
theorem notes_of_work (horderly : Orderly p) (hstep : Step p action p') {state : Forwarding}
    (hstate : p.forwarding .inbound = state) (hwork : state.isForwarding = true)
    (hnoted : Noted taken noted (p'.forwarding .inbound)) : p'.Notes taken noted := by
  refine ⟨hnoted, fun hreported => ?_⟩
  rcases reported_of_step hstep hreported with hold | hreport
  · rw [← hstate, isGone_requests.mp (isGone_of_reported horderly hold)] at hwork
    cases hwork
  · rw [← hstate, report?_requests hreport] at hwork
    cases hwork

theorem Notes.step (h : p.Notes taken noted) (hrecords : p.recording.commands = true)
    (horderly : Orderly p) (hstep : Step p action p') :
    p'.Notes (taken ++ action.commandTaken) (noted ++ action.commandRecorded) := by
  have hall := hstep
  by_cases hmine : action.worker? = some (.requests .inbound)
  · have hnoted := h.state
    cases hstep with
    | @took source incoming hstate =>
      cases hmine
      rw [hstate] at hnoted
      have hsame : taken = noted := hnoted
      refine notes_of_work horderly hall hstate rfl ?_
      rw [forwarding_setForwarding, hsame]
      cases hrequest : incoming.request with
      | exec =>
        simp only [afterTake, hrequest, hrecords, if_true]
        simp [Noted, PipeAction.commandTaken, PipeAction.commandRecorded]
      | _ =>
        simp only [afterTake, hrequest]
        simp [Noted, PipeAction.commandTaken, PipeAction.commandRecorded, hrequest, Request.exec?]
    | @recordedCommand incoming command hstate hexec =>
      rw [hstate] at hnoted
      have hheld : taken = noted ++ incoming.request.exec?.toList := hnoted
      refine notes_of_work horderly hall hstate rfl ?_
      rw [forwarding_setForwarding, hheld, hexec]
      simp [Noted, PipeAction.commandTaken, PipeAction.commandRecorded, Request.exec?]
    | @tookEnd source hstate =>
      cases hmine
      rw [hstate] at hnoted
      refine notes_of_work horderly hall hstate rfl ?_
      rw [forwarding_setForwarding]
      simpa [Noted, PipeAction.commandTaken, PipeAction.commandRecorded] using hnoted
    | @sent source incoming accepted hstate =>
      cases hmine
      rw [hstate] at hnoted
      refine notes_of_work horderly hall hstate rfl ?_
      rw [forwarding_setForwarding]
      split_ifs <;> simpa [Noted, PipeAction.commandTaken, PipeAction.commandRecorded] using hnoted
    | @replied source accepted hstate =>
      cases hmine
      rw [hstate] at hnoted
      refine notes_of_work horderly hall hstate rfl ?_
      rw [forwarding_setForwarding]
      simpa [Noted, PipeAction.commandTaken, PipeAction.commandRecorded] using hnoted
    | @sendError source incoming e hstate | @replyError source accepted e hstate =>
      cases hmine
      refine notes_of_work horderly hall hstate rfl ?_
      rw [forwarding_setForwarding]
      simpa [Noted, PipeAction.commandTaken, PipeAction.commandRecorded] using hnoted.isPrefix
    | _ => cases hmine
  · have hquiet : action.commandTaken = [] ∧ action.commandRecorded = [] := by
      cases hstep with
      | @took source =>
        cases source with
        | inbound => exact absurd rfl hmine
        | outbound => exact ⟨rfl, rfl⟩
      | @tookEnd source => cases source <;> exact ⟨rfl, rfl⟩
      | recordedCommand => exact absurd rfl hmine
      | _ => exact ⟨rfl, rfl⟩
    rw [hquiet.1, hquiet.2, List.append_nil, List.append_nil]
    exact h.rests hall hmine

end Pipe

end Relay

end Gatehouse
