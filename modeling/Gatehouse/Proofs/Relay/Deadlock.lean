import Gatehouse.Proofs.Relay.Waiting

/-!
# When a relay comes to a stop

`waiting_moves_unless_jammed`: while a handler waits for a verdict and the host has sent its answer, some
part of the bastion can take a step, unless the relay is jammed (`Channel.Jammed`).

Proof. The request that the handler waits for is in the queue or with the task that forwards it
(`Channel.Tended`), and that task can take a step unless its call is on the wire (`Channel.Attends`). Then
the owner has something to read. It can do so unless it holds a message for a queue that is full; the task
that reads from that queue can take a step unless it waits for room in the outbox, which is emptied only
when the handler does not wait.

`waiting_jammed`: that happens. A host that sends as much data as the queues and the outbox hold and only
then answers is never heard.
-/

namespace Gatehouse.Relay

namespace Channel

variable {c : Channel} {a : PipeAction} {answers : Answers} {taken : List Asked}

/-! ### Standing still -/

/-- Some part of the bastion can take a step. -/
def CanMove (c : Channel) : Prop :=
  ∃ action, action.isOwn = true ∧ (c.step? action).isSome = true

/-- Every call that waits for the host finds its answer among what the owner has not read yet. -/
def HasAnswered (c : Channel) : Prop :=
  c.owner.pending.length ≤ (c.inbox.filterMap HostMessage.answer?).length

/-- The user's connection is there, and there is no room in the outbox. -/
def IsStuffed (c : Channel) : Prop :=
  c.link ≠ .gone ∧ outboxDepth ≤ c.outbox.length

/-- The owner holds a message for a full queue, and the task that reads from that queue waits for room in
the outbox. -/
inductive Jammed (c : Channel) : Prop where
  | data {held chunk} : c.owner.demux.held = some (.data held) →
      Demux.dataDepth ≤ c.owner.demux.data.items.length →
      c.pipe.copying .outbound = .writing chunk → c.IsStuffed → Jammed c
  | requests {held incoming} : c.owner.demux.held = some (.request held) →
      Demux.requestDepth ≤ c.owner.demux.requests.items.length →
      c.pipe.forwarding .outbound = .sending incoming → c.IsStuffed → Jammed c

/-! ### Single parts -/

/-- A step that a copying or a forwarding task can take goes through. -/
theorem advances (h : (c.pipe.copyStep? a).isSome = true ∨ (c.pipe.forwardStep? a).isSome = true) :
    (c.advance? a).isSome = true := by
  have hstep : (c.pipe.step? a).isSome = true := by
    simp only [Pipe.step?, Option.orElse_eq_orElse, Option.orElse_eq_or, Option.isSome_or,
      Bool.or_eq_true]
    exact h.imp_right .inl
  obtain ⟨p, hnext⟩ := Option.isSome_iff_exists.mp hstep
  rw [advance?, hnext]
  rfl

/-- The log has room for a record, or the log writer has something to write. -/
theorem record?_or_canMove (c : Channel) (record : Option Bytes) :
    (∃ log, c.record? record = some { c with log }) ∨ c.CanMove := by
  by_cases hroom : (record.isNone || !c.log.alive || c.log.queued.length < Recording.Log.queueDepth) = true
  · exact .inl ⟨_, if_pos hroom⟩
  · refine .inr ⟨.write .written, rfl, ?_⟩
    simp only [Bool.or_eq_true, Bool.not_eq_true', decide_eq_true_eq, not_or, Bool.not_eq_false,
      Nat.not_lt] at hroom
    obtain ⟨⟨-, halive⟩, hfull⟩ := hroom
    have hqueued : c.log.queued ≠ [] := by
      intro hnone
      rw [hnone] at hfull
      exact absurd hfull (by decide)
    simp [step?, halive, hqueued]

theorem post?_or_isStuffed (c : Channel) (message : UserMessage) :
    (∃ outbox result, c.post? message = some ({ c with outbox }, result)) ∨ c.IsStuffed := by
  unfold post? IsStuffed
  split_ifs with hgone hroom
  · exact .inl ⟨_, _, rfl⟩
  · exact .inl ⟨_, _, rfl⟩
  · exact .inr ⟨hgone, Nat.not_lt.mp hroom⟩

/-- While its queue is full, the task that copies to the user can take a step unless it waits for room. -/
theorem copier_moves (h : Minds c) (hfull : c.owner.demux.data.hasRoom = false) :
    c.CanMove ∨ (∃ chunk, c.pipe.copying .outbound = .writing chunk) ∧ c.IsStuffed := by
  have hmoves : (c.copyToUser? ⟨0, 0⟩).isSome = true → c.CanMove := fun hsome =>
    ⟨.task (.data .outbound) (.ok ()) ⟨0, 0⟩, rfl, hsome⟩
  have hdepth : 0 < c.owner.demux.data.depth := by rw [h.depths.1]; decide
  have hstays : ¬ c.owner.demux.data.IsLeft := (Queue.full_of_hasRoom hfull).1
  cases hstate : c.pipe.copying .outbound with
  | reading =>
    obtain ⟨data, chunk, htake⟩ := Queue.take_of_full hdepth hfull
    refine .inl (hmoves ?_)
    simp only [copyToUser?, hstate, htake]
    exact advances (.inl (by simp [Pipe.copyStep?, hstate]))
  | recording chunk =>
    rcases c.record?_or_canMove ((c.dataStream .outbound).record? ⟨0, 0⟩ chunk.data) with
      ⟨log, hrecord⟩ | hmove
    · refine .inl (hmoves ?_)
      simp only [copyToUser?, hstate, hrecord]
      exact advances (.inl (by simp [Pipe.copyStep?, hstate]))
    · exact .inl hmove
  | writing chunk =>
    rcases c.post?_or_isStuffed (.data chunk) with ⟨outbox, result, hpost⟩ | hstuffed
    · refine .inl (hmoves ?_)
      simp only [copyToUser?, hstate, hpost]
      exact advances (.inl (by simp [Pipe.copyStep?, hstate]))
    · exact .inr ⟨⟨chunk, rfl⟩, hstuffed⟩
  | halfClosing => exact absurd (h.data (.inr hstate)) hstays
  | reporting | gone => exact absurd (h.data (.inl (isOver_data.mpr (by simp [hstate])))) hstays

theorem requestToUser?_or_isStuffed (c : Channel) (request : Request) :
    (∃ outbox result, c.requestToUser? request = some ({ c with outbox }, result)) ∨ c.IsStuffed := by
  have htold : ∀ message : UserMessage,
      (∃ outbox result, requestToUser?.told c message = some ({ c with outbox }, result)) ∨
        c.IsStuffed := by
    intro message
    refine (c.post?_or_isStuffed message).imp_left ?_
    rintro ⟨outbox, result, hpost⟩
    exact ⟨outbox, result.map fun () => true, by rw [requestToUser?.told, hpost]; rfl⟩
  unfold requestToUser?
  split
  · exact htold _
  · exact htold _
  · exact .inl ⟨_, _, rfl⟩

/-- While its queue is full, the task that forwards to the user can take a step unless it waits for
room. -/
theorem forwarder_moves (h : Minds c) (hrecords : c.pipe.RecordsCommands)
    (hfull : c.owner.demux.requests.hasRoom = false) :
    c.CanMove ∨ (∃ incoming, c.pipe.forwarding .outbound = .sending incoming) ∧ c.IsStuffed := by
  have hmoves : c.forwardToUser?.isSome = true → c.CanMove := fun hsome =>
    ⟨.task (.requests .outbound) (.ok ()) ⟨0, 0⟩, rfl, hsome⟩
  have hdepth : 0 < c.owner.demux.requests.depth := by rw [h.depths.2]; decide
  have hstays : ¬ c.owner.demux.requests.IsLeft := (Queue.full_of_hasRoom hfull).1
  cases hstate : c.pipe.forwarding .outbound with
  | waiting =>
    obtain ⟨requests, incoming, htake⟩ := Queue.take_of_full hdepth hfull
    refine .inl (hmoves ?_)
    simp only [forwardToUser?, hstate, htake]
    exact advances (.inr (by simp [Pipe.forwardStep?, hstate]))
  | recording incoming => cases (hrecords _ _ hstate).1
  | sending incoming =>
    rcases c.requestToUser?_or_isStuffed incoming.request with ⟨outbox, result, hsend⟩ | hstuffed
    · refine .inl (hmoves ?_)
      simp only [forwardToUser?, hstate, hsend]
      exact advances (.inr (by simp [Pipe.forwardStep?, hstate]))
    · exact .inr ⟨⟨incoming, rfl⟩, hstuffed⟩
  | replying accepted =>
    refine .inl (hmoves ?_)
    simp only [forwardToUser?, hstate]
    exact advances (.inr (by simp [Pipe.forwardStep?, hstate]))
  | reporting | gone =>
    have hover : c.isOver (.requests .outbound) = true := by
      simp [isOver, Pipe.isGone, Pipe.report?, hstate]
    exact absurd (h.requests hover) hstays

/-- While the host's channel is open and there is something to read, the owner reads it or lets go of
what it holds, unless the relay is jammed. -/
theorem owner_moves (h : Tended c) (hended : c.owner.ended = false)
    (hopen : c.owner.remoteClosed = false) (hinbox : c.inbox ≠ []) : c.CanMove ∨ c.Jammed := by
  cases hheld : c.owner.demux.held with
  | none =>
    obtain ⟨message, inbox, hnext⟩ := List.exists_cons_of_ne_nil hinbox
    refine .inl ⟨.read, rfl, ?_⟩
    simp [step?, hnext, own?, Owner.step?, Demux.isBlocked, hended, hopen, hheld]
  | some delivery =>
    have hreleases : c.owner.demux.hasRoom = true → c.CanMove := fun hroom =>
      ⟨.release, rfl, by simp [step?, own?, Owner.step?, Demux.isBlocked, hended, hheld, hroom]⟩
    cases delivery with
    | data chunk =>
      cases hroom : c.owner.demux.data.hasRoom with
      | true => exact .inl (hreleases (by simp [Demux.hasRoom, hheld, hroom]))
      | false =>
        refine (copier_moves h.minds hroom).imp_right ?_
        rintro ⟨⟨writing, hstate⟩, hstuffed⟩
        exact .data hheld (h.minds.depths.1 ▸ (Queue.full_of_hasRoom hroom).2) hstate hstuffed
    | request request =>
      cases hroom : c.owner.demux.requests.hasRoom with
      | true => exact .inl (hreleases (by simp [Demux.hasRoom, hheld, hroom]))
      | false =>
        refine (forwarder_moves h.minds h.records hroom).imp_right ?_
        rintro ⟨⟨incoming, hstate⟩, hstuffed⟩
        exact .requests hheld (h.minds.depths.2 ▸ (Queue.full_of_hasRoom hroom).2) hstate hstuffed

/-! ### The request that the handler waits for -/

theorem canMove_of_forwardToHost? (now : Time.Unix) (h : (c.forwardToHost? now).isSome = true) :
    c.CanMove :=
  ⟨.task (.requests .inbound) (.ok ()) now, rfl, h⟩

/-- A command that waits for the owner is carried out. -/
theorem canMove_of_commands (hended : c.owner.ended = false) (hcommands : c.commands ≠ []) :
    c.CanMove := by
  obtain ⟨command, commands, hnext⟩ := List.exists_cons_of_ne_nil hcommands
  refine ⟨.obey (.ok ()), rfl, ?_⟩
  simp [step?, hnext, own?, Owner.step?, hended]

/-- The task that forwards the user's requests takes the next one. -/
theorem taker_moves (hstate : c.pipe.forwarding .inbound = .waiting)
    (hitems : c.feed.requests.items ≠ []) : c.CanMove := by
  obtain ⟨item, items, hnext⟩ := List.exists_cons_of_ne_nil hitems
  refine canMove_of_forwardToHost? ⟨0, 0⟩ ?_
  simp only [forwardToHost?, hstate, Feed.takeRequest, Queue.take, hnext]
  refine advances (.inr ?_)
  rw [deliverVerdicts_pipe]
  simp [Pipe.forwardStep?, hstate]

theorem recorder_moves (hrecords : c.pipe.RecordsCommands) {incoming : Incoming}
    (hstate : c.pipe.forwarding .inbound = .recording incoming) : c.CanMove := by
  obtain ⟨-, command, hcommand⟩ := hrecords _ _ hstate
  rcases c.record?_or_canMove (c.streams.commands.recordLine? ⟨0, 0⟩ command) with
    ⟨log, hrecord⟩ | hmove
  · refine canMove_of_forwardToHost? ⟨0, 0⟩ ?_
    simp only [forwardToHost?, hstate, hcommand, hrecord]
    exact advances (.inr (by simp [Pipe.forwardStep?, hstate, hcommand]))
  · exact hmove

theorem replier_moves {accepted : Bool} (hstate : c.pipe.forwarding .inbound = .replying accepted) :
    c.CanMove := by
  refine canMove_of_forwardToHost? ⟨0, 0⟩ ?_
  simp only [forwardToHost?, hstate]
  refine advances (.inr ?_)
  rw [deliverVerdicts_pipe]
  simp [Pipe.forwardStep?, hstate]

/-- The task asks the owner to put its request on the wire, or finds that there are other things to do
first. -/
theorem asker_moves (hended : c.owner.ended = false) {incoming : Incoming}
    (hstate : c.pipe.forwarding .inbound = .sending incoming) (hcall : c.forwardCall = none) :
    c.CanMove := by
  by_cases hroom : c.commands.length < commandDepth
  · refine canMove_of_forwardToHost? ⟨0, 0⟩ ?_
    simp [forwardToHost?, hstate, requestFromOwner?, hcall, hended, hroom]
  · refine canMove_of_commands hended ?_
    intro hnone
    rw [hnone] at hroom
    exact hroom (by decide)

theorem collector_moves {incoming : Incoming} {call : CallId} {result : Except RelayError Bool}
    (hstate : c.pipe.forwarding .inbound = .sending incoming) (hcall : c.forwardCall = some call)
    (hanswer : c.answered.lookup call = some result) : c.CanMove := by
  refine canMove_of_forwardToHost? ⟨0, 0⟩ ?_
  simp only [forwardToHost?, hstate, requestFromOwner?, hcall, hanswer]
  exact advances (.inr (by simp [Pipe.forwardStep?, hstate]))

/-- The task that forwards the request that a handler waits for can take a step, or else the owner. -/
theorem Attends.moves (h : Attends c answers taken) (htended : Tended c) (hwaiting : c.IsWaiting)
    (hanswered : c.HasAnswered) : c.CanMove ∨ c.Jammed := by
  obtain ⟨asker, hwaits⟩ := hwaiting
  have hactive : ¬ c.isOver (.requests .inbound) = true := fun hover =>
    (htended.heeds.refused hover).2 ⟨asker, hwaits⟩
  have hended : c.owner.ended = false := by
    rw [← Bool.not_eq_true]
    exact fun hended => hactive (htended.minds.ended hended)
  have hstage := h.line.stage
  have howed := h.owed
  cases hstate : c.pipe.forwarding .inbound with
  | waiting =>
    -- Nobody is owed a reply, so the handler waits for a request that is still queued.
    rw [hstate] at howed
    have hknown := htended.heeds.known asker hwaits
    rw [Feed.waiting, show c.feed.owed = none from howed] at hknown
    refine .inl (taker_moves hstate ?_)
    intro hnone
    rw [hnone] at hknown
    cases hknown
  | recording incoming => exact .inl (recorder_moves htended.records hstate)
  | sending incoming =>
    rw [hstate] at hstage
    obtain ⟨before, item, -, -, hsending⟩ := hstage
    cases hsending with
    | ready hidle => exact .inl (asker_moves hended hstate hidle.call)
    | queued hqueued =>
      refine .inl (canMove_of_commands hended ?_)
      intro hnone
      have hcalls := hqueued.calls
      rw [show c.line.commands = [] from hnone] at hcalls
      cases hcalls
    | @pending call hpending =>
      -- The call is on the wire, and its answer is still to be read.
      have hcalls : c.owner.pending = [call] := hpending.pending
      have hopen : c.owner.remoteClosed = false := by
        rw [← Bool.not_eq_true]
        intro hclosed
        cases hcalls.symm.trans (htended.minds.closed hclosed)
      refine owner_moves htended hended hopen ?_
      intro hnone
      rw [HasAnswered, hcalls, hnone] at hanswered
      exact absurd hanswered (by simp)
    | answered hanswer => exact .inl (collector_moves hstate hanswer.mine hanswer.answer)
  | replying accepted => exact .inl (replier_moves hstate)
  | reporting | gone => exact absurd (isOver_requests.mpr (by rw [hstate]; trivial)) hactive

end Channel

/-- While a handler waits for a verdict and the host has sent its answer, some part of the bastion can take
a step, unless the relay is jammed. -/
theorem waiting_moves_unless_jammed {streams : Recording.SessionStreams} {c : Channel} {asker : AskId}
    (hreachable : Channel.Reachable streams c) (hwaits : c.callback = .awaiting asker)
    (hanswered : c.HasAnswered) : c.CanMove ∨ c.Jammed := by
  obtain ⟨actions, hrun⟩ := hreachable
  obtain ⟨taken, hattends⟩ := (Channel.attends_start streams).run hrun
  exact hattends.moves (Channel.tended_of_reachable ⟨actions, hrun⟩) ⟨asker, hwaits⟩ hanswered

/-- A user asks for a shell, which the host accepts. -/
theorem waiting_moves_unless_jammed_shell :
    ∃ c, Channel.Reachable {} c ∧ c.callback = .awaiting 0 ∧ c.HasAnswered ∧ c.CanMove := by
  let forwards : ChannelAction := .task (.requests .inbound) (.ok ()) ⟨0, 0⟩
  have hstate : ((Channel.start {}).run? [.user (.request .shell), forwards, forwards, .obey (.ok ()),
      .host .success]).map (fun c => (c.callback, c.owner.pending, c.inbox, c.outbox)) =
      some (.awaiting 0, [0], [.success], []) := by decide +kernel
  obtain ⟨c, hrun, hparts⟩ := Option.map_eq_some_iff.mp hstate
  simp only [Prod.mk.injEq] at hparts
  obtain ⟨hwaits, hpending, hinbox, houtbox⟩ := hparts
  have hanswered : c.HasAnswered := by
    rw [Channel.HasAnswered, hpending, hinbox]
    decide
  have hroom : ¬ c.IsStuffed := by
    rintro ⟨-, hfull⟩
    rw [houtbox] at hfull
    exact absurd hfull (by decide)
  refine ⟨c, ⟨_, hrun⟩, hwaits, hanswered, ?_⟩
  rcases waiting_moves_unless_jammed ⟨_, hrun⟩ hwaits hanswered with hmove | hjammed
  · exact hmove
  · rcases hjammed with ⟨-, -, -, hstuffed⟩ | ⟨-, -, -, hstuffed⟩ <;> exact absurd hstuffed hroom

/-! ### The circle -/

deriving instance DecidableEq for Copying
deriving instance DecidableEq for Forwarding
deriving instance DecidableEq for Control

namespace Channel

variable {c c' : Channel} {action : ChannelAction}

/-- Every part of the bastion has nothing to do or waits for another one: the handler for the verdict, the
verdict for the owner, the owner for room in the queue of data, that for the copying task, and this one
for room in the outbox, which the connection empties only when the handler is done. -/
structure Halted (c : Channel) : Prop where
  handler : ∃ asker, c.callback = .awaiting asker
  toHost : c.pipe.copying .inbound = .reading ∧ c.feed.data.items = [] ∧ ¬ c.feed.data.IsLeft
  toUser : (∃ chunk, c.pipe.copying .outbound = .writing chunk) ∧ c.IsStuffed
  request : (∃ incoming, c.pipe.forwarding .inbound = .sending incoming) ∧
    ∃ call, c.forwardCall = some call ∧ c.answered.lookup call = none
  told : c.pipe.forwarding .outbound = .waiting ∧ c.owner.demux.requests.items = [] ∧
    ¬ c.owner.demux.requests.IsLeft
  control : c.pipe.control = .waiting ∧ c.pipe.errors = [] ∧ c.pipe.completions = []
  owner : c.commands = [] ∧ c.owner.demux.isBlocked = true ∧ c.owner.demux.hasRoom = false
  log : c.log.queued = []

theorem take_of_empty {α : Type} {q : Queue α} (hitems : q.items = []) (hstays : ¬ q.IsLeft) :
    q.take = (q, .waiting) := by
  simp only [Queue.IsLeft, not_or, Bool.not_eq_false] at hstays
  simp [Queue.take, hitems, hstays.1, hstays.2]

theorem Halted.report? (h : Halted c) (task : PipeTask) : c.pipe.report? task = none := by
  obtain ⟨chunk, htoUser⟩ := h.toUser.1
  obtain ⟨incoming, hrequest⟩ := h.request.1
  cases task with
  | data source => cases source <;> simp [Pipe.report?, h.toHost.1, htoUser]
  | requests source => cases source <;> simp [Pipe.report?, h.told.1, hrequest]

theorem Halted.not_canMove (h : Halted c) : ¬ c.CanMove := by
  obtain ⟨asker, hwaits⟩ := h.handler
  obtain ⟨chunk, htoUser⟩ := h.toUser.1
  obtain ⟨⟨incoming, hrequest⟩, call, hcall, hunanswered⟩ := h.request
  have hcontrol := h.control
  rintro ⟨action, hown, hsome⟩
  cases action with
  | user | lost | dies | host => cases hown
  | handler => simp [step?, resume?, hwaits] at hsome
  | deliver => simp [step?, deliver?, hwaits] at hsome
  | task task writing now =>
    rcases task with ⟨⟨⟩⟩ | ⟨⟨⟩⟩
    · simp [step?, copyToHost?, h.toHost.1, Feed.takeData, take_of_empty h.toHost.2.1 h.toHost.2.2]
        at hsome
    · simp [step?, copyToUser?, htoUser, post?, h.toUser.2.1, Nat.not_lt.mpr h.toUser.2.2] at hsome
    · simp [step?, forwardToHost?, hrequest, requestFromOwner?, hcall, hunanswered] at hsome
    · simp [step?, forwardToUser?, h.told.1, take_of_empty h.told.2.1 h.told.2.2] at hsome
  | report task =>
    simp [step?, advance?, Pipe.step?, Pipe.copyStep?, Pipe.forwardStep?, Pipe.reportStep?,
      Pipe.controlStep?, h.report? task] at hsome
  | control a =>
    cases a with
    | closed side => cases side <;> simp [step?, control?, hcontrol.1] at hsome
    | seesError | seesCompletion =>
      simp [step?, control?, advance?, Pipe.step?, Pipe.copyStep?, Pipe.forwardStep?,
        Pipe.reportStep?, Pipe.controlStep?, hcontrol] at hsome
    | seesNothing =>
      simp [step?, control?, advance?, Pipe.step?, Pipe.copyStep?, Pipe.forwardStep?,
        Pipe.reportStep?, Pipe.controlStep?, hcontrol, Pipe.tasks, Pipe.isGone, h.toHost.1] at hsome
    | _ => cases hsome
  | release => simp [step?, own?, Owner.step?, h.owner.2.2] at hsome
  | read =>
    cases hinbox : c.inbox <;> simp [step?, own?, Owner.step?, hinbox, h.owner.2.1] at hsome
  | obey => simp [step?, h.owner.1] at hsome
  | finish =>
    simp [step?, callersGone, isOver, Pipe.isGone, h.report?, hrequest] at hsome
  | write => simp [step?, h.log] at hsome

/-- Nothing that the host sends changes that, and the user's connection takes nothing from the user: only
the loss of the connection or the death of a task does. -/
theorem Halted.step (h : Halted c) (hstep : c.step? action = some c') (hlost : action ≠ .lost)
    (hdies : ∀ task, action ≠ .dies task) : Halted c' ∧ c'.callback = c.callback := by
  have hother : action.isOwn = false := by
    rw [← Bool.not_eq_true]
    exact fun hown => h.not_canMove ⟨action, hown, hstep ▸ rfl⟩
  cases action with
  | user input =>
    obtain ⟨asker, hwaits⟩ := h.handler
    simp [step?, hwaits] at hstep
  | host message =>
    cases hstep
    exact ⟨⟨h.handler, h.toHost, h.toUser, h.request, h.told, h.control, h.owner, h.log⟩, rfl⟩
  | lost => exact absurd rfl hlost
  | dies task => exact absurd rfl (hdies task)
  | _ => cases hother

theorem Halted.run {actions : List ChannelAction} :
    ∀ {c : Channel}, Halted c → c.run? actions = some c' →
      (∀ action ∈ actions, action ≠ .lost ∧ ∀ task, action ≠ .dies task) →
      Halted c' ∧ c'.callback = c.callback := by
  induction actions with
  | nil =>
    intro c h hrun _
    cases hrun
    exact ⟨h, rfl⟩
  | cons action more ih =>
    intro c h hrun hcalm
    obtain ⟨c₁, hstep, hrest⟩ := Option.bind_eq_some_iff.mp hrun
    obtain ⟨hlost, hdies⟩ := hcalm action List.mem_cons_self
    obtain ⟨hnext, hsame⟩ := h.step hstep hlost hdies
    obtain ⟨hlast, hlater⟩ := ih hnext hrest fun later hmem => hcalm later (List.mem_cons_of_mem _ hmem)
    exact ⟨hlast, hlater.trans hsame⟩

/-- A user asks for a shell. The host sends as much data as there is room for, and only then answers. -/
def floodedShell : List ChannelAction :=
  let block : ChannelAction := .host (.data { data := [120] })
  let forwards : ChannelAction := .task (.requests .inbound) (.ok ()) ⟨0, 0⟩
  let copies : ChannelAction := .task (.data .outbound) (.ok ()) ⟨0, 0⟩
  [.user (.request .shell), forwards, forwards, .obey (.ok ())] ++
    (List.replicate outboxDepth [block, .read, copies, copies]).flatten ++
    [block, .read, copies] ++
    (List.replicate (Demux.dataDepth + 1) [block, .read]).flatten ++
    [.host .success]

end Channel

/-- A user asks for a shell whose host fills all queues before it accepts. Nothing in the bastion can take a
step any more, and the handler waits until the connection is lost or a task dies. -/
theorem waiting_jammed :
    ∃ c, (Channel.start {}).run? Channel.floodedShell = some c ∧ c.callback = .awaiting 0 ∧
      c.HasAnswered ∧ ¬ c.CanMove ∧
      ∀ actions c', c.run? actions = some c' →
        (∀ action ∈ actions, action ≠ .lost ∧ ∀ task, action ≠ .dies task) →
        c'.callback = .awaiting 0 := by
  obtain ⟨c, hrun⟩ : ∃ c, (Channel.start {}).run? Channel.floodedShell = some c :=
    Option.isSome_iff_exists.mp (by decide +kernel)
  have hat : ∀ {α : Type} (part : Channel → α) (value : α),
      ((Channel.start {}).run? Channel.floodedShell).map part = some value → part c = value := by
    intro α part value h
    rw [hrun] at h
    exact Option.some.inj h
  have hhandler := hat (·.callback) (.awaiting 0) (by decide +kernel)
  have htoHost := hat (fun c => (c.pipe.copying .inbound, c.feed.data))
    (.reading, { depth := Demux.dataDepth }) (by decide +kernel)
  have htoUser := hat (fun c => (c.pipe.copying .outbound, c.link, c.outbox.length))
    (.writing { data := [120] }, .running, Channel.outboxDepth) (by decide +kernel)
  have hrequest := hat (fun c => (c.pipe.forwarding .inbound, c.forwardCall, c.answered.length))
    (.sending (.ofRequest .shell), some 0, 0) (by decide +kernel)
  have htold := hat (fun c => (c.pipe.forwarding .outbound, c.owner.demux.requests))
    (.waiting, { depth := Demux.requestDepth }) (by decide +kernel)
  have hcontrol := hat (fun c => (c.pipe.control, c.pipe.errors, c.pipe.completions))
    (.waiting, [], []) (by decide +kernel)
  have howner := hat (fun c => (c.commands, c.owner.demux.isBlocked, c.owner.demux.hasRoom))
    ([], true, false) (by decide +kernel)
  have hpending := hat (fun c => (c.owner.pending, c.inbox, c.log.queued))
    ([0], [.success], []) (by decide +kernel)
  simp only [Prod.mk.injEq] at htoHost htoUser hrequest htold hcontrol howner hpending
  have hhalted : Channel.Halted c := by
    refine ⟨⟨0, hhandler⟩, ?_, ?_, ?_, ?_, hcontrol, howner, hpending.2.2⟩
    · rw [htoHost.2]
      exact ⟨htoHost.1, rfl, by simp [Queue.IsLeft]⟩
    · exact ⟨⟨_, htoUser.1⟩, by rw [htoUser.2.1]; decide, Nat.le_of_eq htoUser.2.2.symm⟩
    · refine ⟨⟨_, hrequest.1⟩, 0, hrequest.2.1, ?_⟩
      rw [List.length_eq_zero_iff.mp hrequest.2.2]
      rfl
    · rw [htold.2]
      exact ⟨htold.1, rfl, by simp [Queue.IsLeft]⟩
  refine ⟨c, hrun, hhandler, ?_, hhalted.not_canMove, fun actions c' hlater hcalm => ?_⟩
  · rw [Channel.HasAnswered, hpending.1, hpending.2.1]
    decide
  · exact (hhalted.run hlater hcalm).2.trans hhandler

end Gatehouse.Relay
