import Gatehouse.Relay.Channel

/-!
# Blocks that are written byte by byte

The channel as a whole takes a block of the user's data as written at once (`Channel.writeToHost`), whereas
the writer puts it into a pipe as far as there is room and waits with what is left.

`blocks_are_written` tells that this makes no difference as long as somebody is there who would tell that the
channel is closed: whatever is asked of a writer, while its pipes are read or abandoned and the channel is
closed, each call ends with the result that it has in a channel that carries it out at that moment, and what
has passed through a lane is what this channel says, up to a beginning of the block that the writer is at.

Proof. A channel stands beside the writer (`Beside`), and for each lane an account is kept of what has
passed, what is left of the calls and what the channel has been told (`Account`). An attempt at a task keeps
it (`Beside.attempt`), so does the work on all tasks (`Beside.workOn`), and so does whatever else happens
(`Writing.isBeside_prepare`), step by step (`Writing.isBeside_run`).
-/

namespace Gatehouse.Relay

/-! ### Calls -/

/-- What is asked of a writer. -/
inductive WriterCall where
  | write (chunk : Chunk)
  | halfClose

/-- What a writer has to do for a call. -/
def WriterCall.task : WriterCall → WriterTask
  | write chunk => .write (Lane.ofChunk chunk) chunk.data
  | halfClose => .shutDown

/-- A writer is asked for something. -/
def Writer.ask (w : Writer) : WriterCall → Writer
  | .write chunk => w.addChunk chunk
  | .halfClose => w.add .shutDown

theorem Writer.ask_eq (w : Writer) (call : WriterCall) : w.ask call = w.add call.task := by
  cases call <;> rfl

/-- What is left of a call that the writer is at. Something is left of a block that is not empty. -/
inductive LeftOf : WriterTask → WriterCall → Prop
  | write {chunk : Chunk} {rest : Bytes} (hrest : rest <:+ chunk.data)
      (hempty : rest = [] → chunk.data = []) : LeftOf (.write (Lane.ofChunk chunk) rest) (.write chunk)
  | halfClose : LeftOf .shutDown .halfClose

theorem leftOf_task (call : WriterCall) : LeftOf call.task call := by
  cases call with
  | write chunk => exact .write (List.suffix_refl _) id
  | halfClose => exact .halfClose

namespace Lane

/-- The bytes of a task on a lane. -/
def taskBytes (lane : Lane) : WriterTask → Bytes
  | .write on bytes => if on = lane then bytes else []
  | .shutDown => []

/-- The bytes of tasks on a lane. -/
def left (lane : Lane) (tasks : List WriterTask) : Bytes :=
  tasks.flatMap lane.taskBytes

/-- The bytes of calls on a lane. -/
def asked (lane : Lane) (calls : List WriterCall) : Bytes :=
  calls.flatMap fun call => lane.taskBytes call.task

/-- The bytes of blocks that have passed through a lane. -/
def told (lane : Lane) (chunks : List Chunk) : Bytes :=
  chunks.flatMap fun chunk => if ofChunk chunk = lane then chunk.data else []

theorem left_cons (lane : Lane) (task : WriterTask) (tasks : List WriterTask) :
    lane.left (task :: tasks) = lane.taskBytes task ++ lane.left tasks := rfl

theorem asked_cons (lane : Lane) (call : WriterCall) (calls : List WriterCall) :
    lane.asked (call :: calls) = lane.taskBytes call.task ++ lane.asked calls := rfl

theorem asked_append (lane : Lane) (calls more : List WriterCall) :
    lane.asked (calls ++ more) = lane.asked calls ++ lane.asked more :=
  List.flatMap_append

theorem left_append (lane : Lane) (tasks more : List WriterTask) :
    lane.left (tasks ++ more) = lane.left tasks ++ lane.left more :=
  List.flatMap_append

theorem left_map (lane : Lane) (calls : List WriterCall) :
    lane.left (calls.map WriterCall.task) = lane.asked calls :=
  List.flatMap_map _ _ _

theorem ofChunk_carry (chunk : Chunk) : ofChunk ((ofChunk chunk).carry chunk.data) = ofChunk chunk := by
  unfold ofChunk
  cases chunk.ext <;> rfl

theorem data_carry (lane : Lane) (data : Bytes) : (lane.carry data).data = data := by
  cases lane <;> rfl

/-- A block that the channel is told of adds what the call asks for. -/
theorem told_snoc (lane : Lane) (chunks : List Chunk) (chunk : Chunk) :
    lane.told (chunks ++ [(ofChunk chunk).carry chunk.data]) =
      lane.told chunks ++ lane.taskBytes (WriterCall.write chunk).task := by
  simp only [told, List.flatMap_append, List.flatMap_singleton, ofChunk_carry, data_carry]
  rfl

end Lane

theorem LeftOf.suffix {task : WriterTask} {call : WriterCall} (h : LeftOf task call) (lane : Lane) :
    lane.taskBytes task <:+ lane.taskBytes call.task := by
  cases h with
  | @write chunk rest hrest =>
    by_cases hlane : Lane.ofChunk chunk = lane
    · simpa [WriterCall.task, Lane.taskBytes, hlane] using hrest
    · simp [WriterCall.task, Lane.taskBytes, hlane]
  | halfClose => exact List.suffix_refl _

/-- The tasks of a writer that is at the first of these calls. -/
inductive Queued : List WriterTask → List WriterCall → Prop
  | nil : Queued [] []
  | cons {task : WriterTask} {call : WriterCall} (hleft : LeftOf task call) (more : List WriterCall) :
      Queued (task :: more.map WriterCall.task) (call :: more)

/-- A writer that is at a block has a write to do. -/
theorem Queued.of_write {on : Lane} {rest : Bytes} {tasks : List WriterTask} {call : WriterCall}
    {pending : List WriterCall} (h : Queued (.write on rest :: tasks) (call :: pending)) :
    ∃ chunk, call = .write chunk ∧ on = Lane.ofChunk chunk ∧ rest <:+ chunk.data ∧
      (rest = [] → chunk.data = []) ∧ tasks = pending.map WriterCall.task := by
  cases h with
  | cons hleft pending =>
    cases hleft with
    | @write chunk _ hrest hempty => exact ⟨chunk, rfl, rfl, hrest, hempty, rfl⟩

theorem queued_map (calls : List WriterCall) : Queued (calls.map WriterCall.task) calls := by
  cases calls with
  | nil => exact .nil
  | cons call more => exact .cons (leftOf_task call) more

theorem Queued.snoc {tasks : List WriterTask} {pending : List WriterCall} (h : Queued tasks pending)
    (call : WriterCall) : Queued (tasks ++ [call.task]) (pending ++ [call]) := by
  cases h with
  | nil => exact queued_map [call]
  | cons hleft more =>
    rw [List.cons_append, List.cons_append, ← List.map_singleton, ← List.map_append]
    exact .cons hleft (more ++ [call])

theorem Queued.pending_eq_nil {pending : List WriterCall} (h : Queued [] pending) : pending = [] := by
  cases h
  rfl

theorem Queued.suffix {tasks : List WriterTask} {pending : List WriterCall} (h : Queued tasks pending)
    (lane : Lane) : lane.left tasks <:+ lane.asked pending := by
  cases h with
  | nil => exact List.suffix_refl _
  | cons hleft more =>
    obtain ⟨part, hpart⟩ := hleft.suffix lane
    refine ⟨part, ?_⟩
    rw [Lane.left_cons, Lane.asked_cons, Lane.left_map, ← hpart, List.append_assoc]

/-! ### A writer at work -/

/-- The bytes that reading a pipe gives. -/
def BytePipe.given (p : BytePipe) (most : Nat) : Bytes :=
  match (p.read most).2 with
  | .item bytes => bytes
  | .ended | .waiting => []

/-- Reading a pipe takes what it gives out of it, and changes nothing else. -/
theorem BytePipe.read_eq (p : BytePipe) (most : Nat) :
    ∃ rest, (p.read most).1 = { p with buffered := rest } ∧ p.given most ++ rest = p.buffered := by
  unfold given read
  by_cases hmost : most = 0
  · exact ⟨p.buffered, by simp [hmost], by simp [hmost]⟩
  by_cases hempty : p.buffered.isEmpty = true
  · exact ⟨p.buffered, by simp [hmost, hempty], by cases p.isBroken <;> simp [hmost, hempty]⟩
  · exact ⟨p.buffered.drop most, by simp [hmost, hempty], by simp [hmost, hempty]⟩

/-- What happens at a writer. -/
inductive WriterStep where
  | call (call : WriterCall)
  /-- At most so many bytes are taken out of a lane. -/
  | read (lane : Lane) (most : Nat)
  /-- The reading end of a lane goes away. -/
  | abandon (lane : Lane)
  /-- The channel is closed. -/
  | close

/-- A writer with the calls that it is not done with and what has been read from its lanes. -/
structure Writing where
  writer : Writer
  /-- All that has been asked, oldest first. -/
  calls : List WriterCall := []
  /-- The calls that are not done, oldest first. -/
  pending : List WriterCall := []
  received : Lane → Bytes := fun _ => []

namespace Writing

/-- What happens, before the writer goes on. -/
def prepare (s : Writing) : WriterStep → Writing
  | .call call =>
    { s with
      writer := s.writer.ask call
      calls := s.calls ++ [call]
      pending := s.pending ++ [call] }
  | .read lane most =>
    let pipe := s.writer.pipe lane
    { s with
      writer := s.writer.setPipe lane (pipe.read most).1
      received := fun l => if l = lane then s.received l ++ pipe.given most else s.received l }
  | .abandon lane => { s with writer := s.writer.setPipe lane (s.writer.pipe lane).abandon }
  | .close => { s with writer := { s.writer with channel := .closed } }

/-- The writer goes on as far as it can; gives the calls that are done with it, with their results. -/
def work (s : Writing) : Writing × List (WriterCall × Except RelayError Unit) :=
  let (writer, results) := s.writer.work
  ({ s with writer, pending := s.pending.drop results.length }, s.pending.zip results)

/-- Something happens, and the writer goes on. -/
def step (s : Writing) (step : WriterStep) : Writing × List (WriterCall × Except RelayError Unit) :=
  (s.prepare step).work

/-- The writer after all that happens. -/
def run (s : Writing) (steps : List WriterStep) : Writing :=
  steps.foldl (fun s step => (s.step step).1) s

/-- What has passed through a lane: what has been read from it and what is in its pipe. -/
def passed (s : Writing) (lane : Lane) : Bytes :=
  s.received lane ++ (s.writer.pipe lane).buffered

end Writing

/-! ### The channel beside a writer -/

namespace Channel

/-- A call is carried out at once; writing comes to this. -/
def carryOut (c : Channel) (writing : Except String Unit) : WriterCall → Channel × Except RelayError Unit
  | .write chunk => c.writeToHost chunk writing
  | .halfClose => c.halfCloseHost writing

/-- A block that is written to an open channel has been received. -/
theorem writeToHost_of_open {c : Channel} (hopen : c.owner.dropsWrites = false) (chunk : Chunk) :
    c.writeToHost chunk (.ok ()) = ({ c with passed := { c.passed with
      dataToHost := c.passed.dataToHost ++ [(Lane.ofChunk chunk).carry chunk.data] } }, .ok ()) := by
  simp only [writeToHost, hopen, Bool.false_eq_true, ↓reduceIte]

/-- Calls are carried out in order, with these results. -/
inductive CarriesOut : Channel → List (WriterCall × Except RelayError Unit) → Channel → Prop
  | nil {c : Channel} : CarriesOut c [] c
  | cons {c c₁ c₂ : Channel} {call : WriterCall} {writing : Except String Unit}
      {result : Except RelayError Unit} {more : List (WriterCall × Except RelayError Unit)}
      (hcall : c.carryOut writing call = (c₁, result)) (hmore : CarriesOut c₁ more c₂) :
      CarriesOut c ((call, result) :: more) c₂

/-- The channel is closed if that is what happens at the writer. -/
def hears (c : Channel) : WriterStep → Channel
  | .close => { c with owner := { c.owner with localClosed := true } }
  | .call _ | .read _ _ | .abandon _ => c

/-- The channel goes along with a writer: a call is carried out when the writer is done with it, and with
the result that the writer gives. -/
inductive GoesAlong : Channel → Writing → List WriterStep → Channel → Prop
  | nil {c : Channel} {s : Writing} : GoesAlong c s [] c
  | cons {c c₁ c₂ : Channel} {s : Writing} {step : WriterStep} {more : List WriterStep}
      (hdone : (c.hears step).CarriesOut (s.step step).2 c₁)
      (hmore : GoesAlong c₁ (s.step step).1 more c₂) : GoesAlong c s (step :: more) c₂

end Channel

/-! ### Accounts -/

/-- The account of a lane: what has passed, what is left of the tasks, what the channel was told, what it
is yet to be told, and all that was asked. -/
structure Account (isOpen gone : Prop) (passed left told pending asked : Bytes) : Prop where
  past : passed <+: asked
  covers : ¬ gone → told <+: passed
  left : isOpen → passed ++ left = asked
  pending : isOpen → told ++ pending = asked

theorem prefix_of_append_eq {before before' after after' : Bytes} (h : before ++ after = before' ++ after')
    (hsuffix : after' <:+ after) : before <+: before' := by
  obtain ⟨part, rfl⟩ := hsuffix
  rw [← List.append_assoc] at h
  exact ⟨part, List.append_cancel_right h⟩

/-- On an open lane the sums are enough. -/
theorem Account.ofOpen {isOpen gone : Prop} {passed left told pending asked : Bytes}
    (hleft : passed ++ left = asked) (hpending : told ++ pending = asked) (hsuffix : left <:+ pending) :
    Account isOpen gone passed left told pending asked where
  past := hleft ▸ List.prefix_append _ _
  covers _ := prefix_of_append_eq (hpending.trans hleft.symm) hsuffix
  left _ := hleft
  pending _ := hpending

/-- More is asked. -/
theorem Account.ask {isOpen gone : Prop} {passed left told pending asked : Bytes}
    (h : Account isOpen gone passed left told pending asked) (more : Bytes) :
    Account isOpen gone passed (left ++ more) told (pending ++ more) (asked ++ more) where
  past := h.past.trans (List.prefix_append _ _)
  covers := h.covers
  left ho := by rw [← List.append_assoc, h.left ho]
  pending ho := by rw [← List.append_assoc, h.pending ho]

/-- A lane on which nothing more is written. -/
theorem Account.stop {isOpen gone gone' : Prop} {passed left left' told pending pending' asked : Bytes}
    (h : Account isOpen gone passed left told pending asked) {isOpen' : Prop} (hshut : ¬ isOpen')
    (hgone : gone → gone') : Account isOpen' gone' passed left' told pending' asked where
  past := h.past
  covers hthere := h.covers fun hg => hthere (hgone hg)
  left ho := absurd ho hshut
  pending ho := absurd ho hshut

namespace Writer

/-- Writing on a lane neither fails nor is dropped. -/
def IsOpen (w : Writer) (lane : Lane) : Prop :=
  w.channel = .running ∧ (w.pipe lane).isBroken = false

/-- The writer when some bytes have passed into a pipe. -/
def passing (w : Writer) (on : Lane) (taken : Bytes) : Writer :=
  w.setPipe on { w.pipe on with buffered := (w.pipe on).buffered ++ taken }

/-- How many more bytes a pipe takes. -/
def room (w : Writer) (on : Lane) : Nat :=
  (w.pipe on).capacity - (w.pipe on).buffered.length

theorem attempt_write_of_isOpen {w : Writer} {on : Lane} (hopen : w.IsOpen on) {bytes : Bytes}
    (hbytes : bytes ≠ []) :
    w.attempt (.write on bytes) = (w.passing on (bytes.take (w.room on)),
      if bytes.drop (w.room on) = [] then .inl (.ok ()) else .inr (.write on (bytes.drop (w.room on)))) := by
  obtain ⟨hrunning, hbroken⟩ := hopen
  simp only [attempt, hrunning, hbroken, hbytes, BytePipe.accept, setPipe, passing, room, List.isEmpty_iff,
    Bool.or_eq_true, decide_eq_true_eq, reduceCtorEq, or_false, Bool.false_eq_true, ↓reduceIte]
  exact (apply_ite (Prod.mk _) _ _ _).symm

end Writer

/-- A channel beside a writer with these tasks, of whose calls all that are not pending are done. -/
structure Beside (calls : List WriterCall) (received : Lane → Bytes) (w : Writer) (tasks : List WriterTask)
    (pending : List WriterCall) (c : Channel) : Prop where
  watched : w.channel ≠ .unwatched
  drops : w.channel = .closed ↔ c.owner.dropsWrites = true
  queued : Queued tasks pending
  account : ∀ lane, Account (w.IsOpen lane) ((w.pipe lane).abandoned = true)
    (received lane ++ (w.pipe lane).buffered) (lane.left tasks) (lane.told c.passed.dataToHost)
    (lane.asked pending) (lane.asked calls)

namespace Beside

variable {calls pending : List WriterCall} {received : Lane → Bytes} {w w' : Writer}
  {task : WriterTask} {tasks : List WriterTask} {call : WriterCall} {c : Channel}
  {results : List (Except RelayError Unit)}

/-- A call that is done without anything having passed. -/
theorem skip (h : Beside calls received w (task :: tasks) (call :: pending) c)
    (hbytes : ∀ lane, w.IsOpen lane → lane.taskBytes task = [] ∧ lane.taskBytes call.task = []) :
    Beside calls received w tasks pending c where
  watched := h.watched
  drops := h.drops
  queued := by
    cases h.queued with
    | cons hleft more => exact queued_map pending
  account lane := by
    have ha := h.account lane
    refine { past := ha.past, covers := ha.covers, left := fun ho => ?_, pending := fun ho => ?_ }
    · have hsum := ha.left ho
      rwa [Lane.left_cons, (hbytes lane ho).1] at hsum
    · have hsum := ha.pending ho
      rwa [Lane.asked_cons, (hbytes lane ho).2] at hsum

theorem running (h : Beside calls received w tasks pending c) (hopen : w.channel ≠ .closed) :
    w.channel = .running ∧ c.owner.dropsWrites = false := by
  refine ⟨?_, Bool.eq_false_iff.mpr fun hdrops => hopen (h.drops.mpr hdrops)⟩
  cases hchannel : w.channel with
  | running => rfl
  | closed => exact absurd hchannel hopen
  | unwatched => exact absurd hchannel h.watched

/-- Where the channel is closed, calls are dropped. -/
theorem closed (h : Beside calls received w (task :: tasks) (call :: pending) c)
    (hclosed : w.channel = .closed) :
    c.carryOut (.ok ()) call = (c, .ok ()) ∧ Beside calls received w tasks pending c := by
  refine ⟨?_, h.skip fun lane ho => ?_⟩
  · have hdrops := h.drops.mp hclosed
    cases call with
    | write chunk => exact if_pos hdrops
    | halfClose => exact if_pos hdrops
  · cases hclosed.symm.trans ho.1

/-- A lane is shut. -/
theorem shut (h : Beside calls received w (.shutDown :: tasks) (.halfClose :: pending) c)
    (hopen : w.channel ≠ .closed) :
    ∃ c', c.carryOut (.ok ()) .halfClose = (c', .ok ()) ∧
      Beside calls received (w.setPipe .output { w.pipe .output with shut := true }) tasks pending c' := by
  obtain ⟨-, hdrops⟩ := h.running hopen
  have hskip := h.skip fun lane _ => ⟨rfl, rfl⟩
  refine ⟨{ c with passed := { c.passed with halfCloses := c.passed.halfCloses + 1 } }, ?_, ?_⟩
  · simp only [Channel.carryOut, Channel.halfCloseHost, hdrops, Bool.false_eq_true, ↓reduceIte]
  · refine ⟨h.watched, h.drops, hskip.queued, fun lane => ?_⟩
    cases lane with
    | output => exact (hskip.account .output).stop (fun ho => Bool.noConfusion ho.2) id
    | error => exact hskip.account .error

/-- A block of which nothing is left. -/
theorem empty {on : Lane} (h : Beside calls received w (.write on [] :: tasks) (call :: pending) c)
    (hopen : w.channel ≠ .closed) :
    ∃ c', c.carryOut (.ok ()) call = (c', .ok ()) ∧ Beside calls received w tasks pending c' := by
  obtain ⟨-, hdrops⟩ := h.running hopen
  obtain ⟨chunk, rfl, rfl, -, hempty, -⟩ := h.queued.of_write
  have hnone (lane : Lane) : lane.taskBytes (WriterCall.write chunk).task = [] := by
    simp [WriterCall.task, Lane.taskBytes, hempty rfl]
  have hskip := h.skip fun lane _ => ⟨ite_self _, hnone lane⟩
  refine ⟨_, Channel.writeToHost_of_open hdrops chunk, h.watched, h.drops, hskip.queued, fun lane => ?_⟩
  have ha := hskip.account lane
  rwa [Lane.told_snoc, hnone, List.append_nil]

/-- A write to a broken pipe fails. -/
theorem fail {on : Lane} {rest : Bytes}
    (h : Beside calls received w (.write on rest :: tasks) (call :: pending) c)
    (hopen : w.channel ≠ .closed) (hbroken : (w.pipe on).isBroken = true) :
    c.carryOut (.error "broken pipe") call = (c, .error Writer.brokenPipe) ∧
      Beside calls received w tasks pending c := by
  obtain ⟨-, hdrops⟩ := h.running hopen
  obtain ⟨chunk, rfl, rfl, -⟩ := h.queued.of_write
  refine ⟨?_, h.skip fun lane ho => ?_⟩
  · simp only [Channel.carryOut, Channel.writeToHost, hdrops, Bool.false_eq_true, ↓reduceIte]
    rfl
  · have hne : Lane.ofChunk chunk ≠ lane := by
      rintro rfl
      cases hbroken.symm.trans ho.2
    exact ⟨if_neg hne, if_neg hne⟩

/-- Some of a block passes, and something is left. -/
theorem wait {on : Lane} {taken rest : Bytes}
    (h : Beside calls received w (.write on (taken ++ rest) :: tasks) (call :: pending) c)
    (hopen : w.IsOpen on) (hrest : rest ≠ []) :
    Beside calls received (w.passing on taken) (.write on rest :: tasks) (call :: pending) c := by
  obtain ⟨chunk, rfl, rfl, hsuffix, -, rfl⟩ := h.queued.of_write
  have hqueued : Queued (.write (Lane.ofChunk chunk) rest :: pending.map WriterCall.task)
      (.write chunk :: pending) := by
    have hpart := (List.suffix_append taken rest).trans hsuffix
    exact .cons (.write hpart fun hnone => absurd hnone hrest) pending
  refine ⟨h.watched, h.drops, hqueued, fun lane => ?_⟩
  have ha := h.account lane
  by_cases hlane : Lane.ofChunk chunk = lane
  · subst hlane
    refine .ofOpen ?_ (ha.pending hopen) (hqueued.suffix _)
    have hsum := ha.left hopen
    rw [Lane.left_cons, Lane.taskBytes, if_pos rfl] at hsum ⊢
    simpa [Writer.passing, Writer.setPipe] using hsum
  · have hsame : (w.passing (Lane.ofChunk chunk) taken).pipe lane = w.pipe lane := if_neg (Ne.symm hlane)
    rw [Lane.left_cons, Lane.taskBytes, if_neg hlane] at ha ⊢
    rw [Writer.IsOpen, hsame]
    exact ha

/-- The rest of a block passes. -/
theorem finish {on : Lane} {bytes : Bytes}
    (h : Beside calls received w (.write on bytes :: tasks) (call :: pending) c) (hopen : w.IsOpen on) :
    ∃ c', c.carryOut (.ok ()) call = (c', .ok ()) ∧
      Beside calls received (w.passing on bytes) tasks pending c' := by
  obtain ⟨-, hdrops⟩ := h.running (by simp [hopen.1])
  obtain ⟨chunk, rfl, rfl, -, -, rfl⟩ := h.queued.of_write
  refine ⟨_, Channel.writeToHost_of_open hdrops chunk, h.watched, h.drops, queued_map pending, fun lane => ?_⟩
  have ha := h.account lane
  rw [Lane.told_snoc]
  by_cases hlane : Lane.ofChunk chunk = lane
  · subst hlane
    refine .ofOpen ?_ ?_ ((queued_map pending).suffix _)
    · have hsum := ha.left hopen
      rw [Lane.left_cons, Lane.taskBytes, if_pos rfl] at hsum
      simpa [Writer.passing, Writer.setPipe] using hsum
    · have hsum := ha.pending hopen
      rwa [Lane.asked_cons, ← List.append_assoc] at hsum
  · have hsame : (w.passing (Lane.ofChunk chunk) bytes).pipe lane = w.pipe lane := if_neg (Ne.symm hlane)
    have hnone : lane.taskBytes (WriterCall.write chunk).task = [] := if_neg hlane
    rw [hnone, List.append_nil, Writer.IsOpen, hsame]
    rw [Lane.left_cons, Lane.asked_cons, hnone, Lane.taskBytes, if_neg hlane] at ha
    exact ha

/-- A writer that attempts a task either gets done with it, with the result that the call has in the
channel, or waits with what is left. -/
theorem attempt (h : Beside calls received w (task :: tasks) (call :: pending) c) :
    match w.attempt task with
    | (w', .inl result) =>
      ∃ writing c', c.carryOut writing call = (c', result) ∧ Beside calls received w' tasks pending c'
    | (w', .inr task') => Beside calls received w' (task' :: tasks) (call :: pending) c := by
  by_cases hclosed : w.channel = .closed
  · simp only [Writer.attempt, hclosed, ↓reduceIte]
    exact ⟨_, _, h.closed hclosed⟩
  cases task with
  | shutDown =>
    cases h.queued with
    | cons hleft more =>
      cases hleft with
      | halfClose =>
        simp only [Writer.attempt, hclosed, ↓reduceIte]
        exact ⟨_, h.shut hclosed⟩
  | write on bytes =>
    by_cases hempty : bytes = []
    · subst hempty
      simp only [Writer.attempt, hclosed, List.isEmpty_nil, ↓reduceIte]
      exact ⟨_, h.empty hclosed⟩
    by_cases hbroken : (w.pipe on).isBroken = true
    · simp only [Writer.attempt, hclosed, List.isEmpty_iff, hempty, hbroken, ↓reduceIte]
      exact ⟨_, _, h.fail hclosed hbroken⟩
    · have hopen : w.IsOpen on := ⟨(h.running hclosed).1, Bool.eq_false_iff.mpr hbroken⟩
      rw [Writer.attempt_write_of_isOpen hopen hempty]
      by_cases hrest : bytes.drop (w.room on) = []
      · rw [if_pos hrest, List.take_of_length_le (List.drop_eq_nil_iff.mp hrest)]
        exact ⟨_, h.finish hopen⟩
      · rw [if_neg hrest]
        rw [← bytes.take_append_drop (w.room on)] at h
        exact h.wait hopen hrest

/-- A writer that works on its tasks. -/
theorem workOn (h : Beside calls received w tasks pending c) (hwork : w.workOn tasks = (w', results)) :
    ∃ c', c.CarriesOut (pending.zip results) c' ∧
      Beside calls received w' w'.waiting (pending.drop results.length) c' := by
  induction tasks generalizing w w' pending c results with
  | nil =>
    cases h.queued
    cases hwork
    exact ⟨c, .nil, h.watched, h.drops, .nil, h.account⟩
  | cons task tasks ih =>
    cases h.queued with
    | cons hleft pending =>
      have hattempt := h.attempt
      rw [Writer.workOn] at hwork
      split at hwork
      · next w₁ task' hwait =>
        rw [hwait] at hattempt
        cases hwork
        exact ⟨c, by rw [List.zip_nil_right]; exact .nil,
          hattempt.watched, hattempt.drops, hattempt.queued, hattempt.account⟩
      · next w₁ result hdone =>
        rw [hdone] at hattempt
        obtain ⟨writing, c₁, hcall, hbeside⟩ := hattempt
        cases hrest : w₁.workOn (pending.map WriterCall.task) with
        | mk w₂ more =>
          obtain ⟨c₂, hmore, hafter⟩ := ih hbeside hrest
          rw [hrest] at hwork
          cases hwork
          exact ⟨c₂, .cons hcall hmore, hafter⟩

end Beside

namespace Writing

variable {s : Writing} {c : Channel}

/-- A channel beside a writer that is at its oldest call. -/
abbrev IsBeside (s : Writing) (c : Channel) : Prop :=
  Beside s.calls s.received s.writer s.writer.waiting s.pending c

/-- Something happens at the writer. -/
theorem isBeside_prepare (h : s.IsBeside c) (step : WriterStep) : (s.prepare step).IsBeside (c.hears step) := by
  cases step with
  | call call =>
    rw [Writing.IsBeside, prepare, Writer.ask_eq]
    refine ⟨h.watched, h.drops, h.queued.snoc call, fun lane => ?_⟩
    have ha := h.account lane
    have hone : lane.left [call.task] = lane.asked [call] := lane.left_map [call]
    show Account _ _ _ (lane.left (_ ++ [call.task])) _ (lane.asked (_ ++ [call])) (lane.asked (_ ++ [call]))
    rw [Lane.left_append, Lane.asked_append, Lane.asked_append, hone]
    exact ha.ask _
  | read on most =>
    refine ⟨h.watched, h.drops, h.queued, fun lane => ?_⟩
    have ha := h.account lane
    by_cases hlane : lane = on
    · subst hlane
      obtain ⟨rest, hpipe, hbytes⟩ := (s.writer.pipe lane).read_eq most
      simp only [prepare, Writer.IsOpen, Writer.setPipe, ↓reduceIte, hpipe, List.append_assoc, hbytes]
      exact ha
    · simp only [prepare, Writer.IsOpen, Writer.setPipe, hlane, ↓reduceIte]
      exact ha
  | abandon on =>
    refine ⟨h.watched, h.drops, h.queued, fun lane => ?_⟩
    have ha := h.account lane
    by_cases hlane : lane = on
    · subst hlane
      simp only [prepare, Writer.IsOpen, Writer.setPipe, ↓reduceIte, BytePipe.abandon, BytePipe.isBroken,
        Bool.or_true, List.append_nil]
      exact {
        past := (List.prefix_append _ _).trans ha.past
        covers := fun hthere => absurd trivial hthere
        left := fun ho => nomatch ho.2
        pending := fun ho => nomatch ho.2 }
    · simp only [prepare, Writer.IsOpen, Writer.setPipe, hlane, ↓reduceIte]
      exact ha
  | close =>
    refine ⟨nofun, ⟨fun _ => ?_, fun _ => rfl⟩, h.queued, fun lane => ?_⟩
    · simp [Channel.hears, Owner.dropsWrites, Owner.isClosed]
    · exact (h.account lane).stop (fun ho => nomatch ho.1) id

theorem isBeside_step (h : s.IsBeside c) (step : WriterStep) :
    ∃ c', (c.hears step).CarriesOut (s.step step).2 c' ∧ (s.step step).1.IsBeside c' :=
  (isBeside_prepare h step).workOn rfl

theorem isBeside_run (h : s.IsBeside c) (steps : List WriterStep) :
    ∃ c', c.GoesAlong s steps c' ∧ (s.run steps).IsBeside c' := by
  induction steps generalizing s c with
  | nil => exact ⟨c, .nil, h⟩
  | cons step more ih =>
    obtain ⟨c₁, hdone, hbeside⟩ := isBeside_step h step
    obtain ⟨c₂, hmore, hafter⟩ := ih hbeside
    exact ⟨c₂, .cons hdone hmore, hafter⟩

/-- A new channel beside a new writer. -/
theorem isBeside_start (hopen : c.owner.dropsWrites = false) (hnew : c.passed.dataToHost = [])
    (output error : Nat) : IsBeside { writer := .ofCapacities output error } c := by
  refine ⟨nofun, ⟨nofun, fun hdrops => ?_⟩, .nil, fun lane => ?_⟩
  · cases hopen.symm.trans hdrops
  · have htold : lane.told c.passed.dataToHost = [] := by rw [hnew]; rfl
    rw [htold]
    cases lane <;> exact .ofOpen rfl rfl (List.suffix_refl _)

end Writing

/-- Whatever is asked of a writer over two empty pipes, while the pipes are read or abandoned and the channel
is closed, a channel can go along with it in which each call is carried out at once, when the writer is done
with it, and ends as it does there. What has passed through a lane is the beginning of what was asked, and
begins with what the channel says has passed unless the lane was abandoned. As long as writing on the lane
is possible nothing that was asked is lost, and when nothing waits what has passed is just what the channel
says. -/
theorem blocks_are_written {c : Channel} (hopen : c.owner.dropsWrites = false)
    (hnew : c.passed.dataToHost = []) (output error : Nat) (steps : List WriterStep) :
    let start : Writing := { writer := .ofCapacities output error }
    let s := start.run steps
    ∃ c', c.GoesAlong start steps c' ∧ ∀ lane,
      s.passed lane <+: lane.asked s.calls ∧
      ((s.writer.pipe lane).abandoned = false → lane.told c'.passed.dataToHost <+: s.passed lane) ∧
      (s.writer.IsOpen lane →
        s.passed lane ++ lane.left s.writer.waiting = lane.asked s.calls ∧
        (s.writer.waiting = [] → s.passed lane = lane.told c'.passed.dataToHost)) := by
  intro start s
  obtain ⟨c', halong, hbeside⟩ := Writing.isBeside_run (Writing.isBeside_start hopen hnew output error) steps
  refine ⟨c', halong, fun lane => ?_⟩
  have haccount := hbeside.account lane
  refine ⟨haccount.past, fun hthere => haccount.covers (Bool.eq_false_iff.mp hthere), fun ho => ?_⟩
  have hleft : s.passed lane ++ lane.left s.writer.waiting = lane.asked s.calls := haccount.left ho
  refine ⟨hleft, fun hwaiting => ?_⟩
  have hnone : s.pending = [] := (hwaiting ▸ hbeside.queued).pending_eq_nil
  have htold : lane.told c'.passed.dataToHost ++ lane.asked s.pending = lane.asked s.calls :=
    haccount.pending ho
  rw [hnone] at htold
  rw [hwaiting, ← htold] at hleft
  exact List.append_cancel_right hleft

end Gatehouse.Relay
