import Gatehouse.Proofs.Relay.Step
import Gatehouse.Relay.Channel

/-!
# The steps of a relayed channel, one by one

`Channel.step_of_step?`: a step of a relayed channel either leaves its pipe alone (`Channel.Alone`), or
it is a step of the pipe: the rest of the channel does its part first (`Channel.Prepares`), the pipe
follows with an action that says what that part came to, and what the ended tasks held is dropped.
-/

namespace Gatehouse.Relay

namespace Queue

variable {α : Type} {q q' : Queue α}

/-! ### Queues -/

theorem push_cases (q : Queue α) (a : α) :
    (q.fed = false ∧ q.push a = (q, none)) ∨
      (q.fed = true ∧ q.read = false ∧ q.push a = ({ q with fed := false }, none)) ∨
      (q.fed = true ∧ q.read = true ∧
        (q.push a = ({ q with items := q.items ++ [a] }, none) ∨ q.push a = (q, some a))) := by
  unfold push
  cases hfed : q.fed with
  | false => simp
  | true =>
    cases hread : q.read with
    | false => simp
    | true =>
      by_cases hroom : q.items.length < q.depth <;> simp [hroom]

/-- To take from a queue makes nobody leave. -/
theorem take_keeps {taken : Taken α} (h : q.take = (q', taken)) :
    q'.fed = q.fed ∧ q'.read = q.read := by
  unfold take at h
  split at h <;> cases h <;> exact ⟨rfl, rfl⟩

theorem take_item {a : α} (h : q.take = (q', .item a)) : q.items = a :: q'.items := by
  unfold take at h
  split at h
  · next hitems =>
    cases h
    exact hitems
  · split_ifs at h <;> cases h

/-- Where nothing is left nothing is taken. -/
theorem take_ended (h : q.take = (q', .ended)) :
    q' = q ∧ q.items = [] ∧ (q.fed = false ∨ q.read = false) := by
  unfold take at h
  split at h
  · cases h
  · next hitems =>
    obtain ⟨hsame, hended⟩ := Prod.mk.inj h
    refine ⟨hsame.symm, hitems, ?_⟩
    split_ifs at hended with hends
    rw [← Bool.and_eq_false_iff]
    exact Bool.eq_false_iff.mpr hends

end Queue

namespace Owner

variable {o o' : Owner} {effects : List OwnerEffect}

/-! ### The owner -/

theorem step?_release (h : o.step? .release = some (o', effects)) :
    o.ended = false ∧ o.demux.isBlocked = true ∧ o.demux.hasRoom = true ∧
      o' = { o with demux := o.demux.release } ∧ effects = [] := by
  simp only [step?] at h
  split_ifs at h with hready
  simp only [Bool.and_eq_true, Bool.not_eq_true'] at hready
  cases h
  exact ⟨hready.1.1, hready.1.2, hready.2, rfl, rfl⟩

theorem step?_message {m : HostMessage} (h : o.step? (.message m) = some (o', effects)) :
    o.ended = false ∧ o.remoteClosed = false ∧ o.demux.isBlocked = false ∧
      o.receive m = (o', effects) := by
  simp only [step?] at h
  split_ifs at h with hready
  simp only [Bool.and_eq_true, Bool.not_eq_true'] at hready
  exact ⟨hready.1.1, hready.1.2, hready.2, Option.some.inj h⟩

theorem step?_command {command : Command} {sending : Except String Unit}
    (h : o.step? (.command command sending) = some (o', effects)) :
    o.ended = false ∧ o.obey sending command = (o', effects) := by
  simp only [step?] at h
  split_ifs at h with hended
  exact ⟨Bool.eq_false_iff.mpr hended, Option.some.inj h⟩

theorem step?_finish (h : o.step? .finish = some (o', effects)) :
    o.ended = false ∧
      o' = { o with ended := true, localClosed := true, demux := o.demux.endAll, pending := [] } ∧
      effects = (if o.isClosed then [] else [.closed]) ++
        o.pending.map fun call => .answered call (.error (.closed .outbound)) := by
  simp only [step?] at h
  by_cases hended : o.ended = true
  · rw [if_pos hended] at h
    cases h
  · rw [if_neg hended] at h
    cases h
    exact ⟨Bool.eq_false_iff.mpr hended, rfl, rfl⟩

/-- Commands have no part in what the host sends. -/
theorem obey_keeps (o : Owner) (sending : Except String Unit) (command : Command) :
    (o.obey sending command).1.demux = o.demux ∧
      (o.obey sending command).1.remoteClosed = o.remoteClosed := by
  cases command with
  | request call request wantReply =>
    simp only [obey]
    split
    · exact ⟨rfl, rfl⟩
    · rcases sending with reason | ⟨⟩
      · exact ⟨rfl, rfl⟩
      · dsimp only
        split <;> exact ⟨rfl, rfl⟩
  | close call =>
    simp only [obey]
    split <;> exact ⟨rfl, rfl⟩

/-- To hear from the host closes nothing from here, and does not open what the host has closed. -/
theorem receive_keeps (o : Owner) (m : HostMessage) :
    (o.receive m).1.localClosed = o.localClosed ∧ (o.receive m).1.ended = o.ended ∧
      (o.remoteClosed = true → (o.receive m).1.remoteClosed = true) := by
  have hverdict : ∀ accepted, (o.verdict accepted).1.localClosed = o.localClosed ∧
      (o.verdict accepted).1.ended = o.ended ∧
      (o.remoteClosed = true → (o.verdict accepted).1.remoteClosed = true) := by
    intro accepted
    unfold verdict
    split <;> exact ⟨rfl, rfl, id⟩
  cases m with
  | success => exact hverdict true
  | failure => exact hverdict false
  | close => exact ⟨rfl, rfl, fun _ => rfl⟩
  | data | eof | exitStatus | exitSignal | other => exact ⟨rfl, rfl, id⟩

/-- The owner closes the channel when it is asked to. -/
theorem obey_closes (o : Owner) (sending : Except String Unit) (command : Command) :
    ((o.obey sending command).1.localClosed = true →
      o.localClosed = true ∨ ∃ call, command = .close call) ∧
      (o.obey sending command).1.ended = o.ended := by
  cases command with
  | request call request wantReply =>
    simp only [obey]
    split
    · exact ⟨.inl, rfl⟩
    · rcases sending with reason | ⟨⟩
      · exact ⟨.inl, rfl⟩
      · dsimp only
        split <;> exact ⟨.inl, rfl⟩
  | close call =>
    simp only [obey]
    split <;> exact ⟨fun _ => .inr ⟨call, rfl⟩, rfl⟩

end Owner

namespace Channel

/-! ### The channel -/

/-- The part that the rest of the channel has in a step of the pipe. -/
inductive Prepares (c : Channel) : ChannelAction → PipeAction → Channel → Prop where
  | readFromUser {writing now feed chunk} : c.feed.takeData = (feed, .item chunk) →
      Prepares c (.task (.data .inbound) writing now) (.read .inbound (.ok (some chunk)))
        { c with feed }
  | readEndFromUser {writing now feed} : c.feed.takeData = (feed, .ended) →
      Prepares c (.task (.data .inbound) writing now) (.read .inbound (.ok none)) { c with feed }
  | recordFromUser {writing now chunk c₁} :
      c.record? ((c.dataStream .inbound).record? now chunk.data) = some c₁ →
      Prepares c (.task (.data .inbound) writing now) (.recorded .inbound chunk) c₁
  | writeToHost {writing now chunk c₁ result} : c.writeToHost chunk writing = (c₁, result) →
      Prepares c (.task (.data .inbound) writing now) (.wrote .inbound chunk result) c₁
  | halfCloseHost {writing now c₁ result} : c.halfCloseHost writing = (c₁, result) →
      Prepares c (.task (.data .inbound) writing now) (.halfClosed .inbound result) c₁
  | readFromHost {writing now data chunk} : c.owner.demux.data.take = (data, .item chunk) →
      Prepares c (.task (.data .outbound) writing now) (.read .outbound (.ok (some chunk)))
        { c with owner := { c.owner with demux := { c.owner.demux with data } } }
  | readEndFromHost {writing now data} : c.owner.demux.data.take = (data, .ended) →
      Prepares c (.task (.data .outbound) writing now) (.read .outbound (.ok none))
        { c with owner := { c.owner with demux := { c.owner.demux with data } } }
  | recordFromHost {writing now chunk c₁} :
      c.record? ((c.dataStream .outbound).record? now chunk.data) = some c₁ →
      Prepares c (.task (.data .outbound) writing now) (.recorded .outbound chunk) c₁
  | writeToUser {writing now chunk c₁ result} : c.post? (.data chunk) = some (c₁, result) →
      Prepares c (.task (.data .outbound) writing now) (.wrote .outbound chunk result) c₁
  | halfCloseUser {writing now c₁ result} : c.post? .eof = some (c₁, result) →
      Prepares c (.task (.data .outbound) writing now) (.halfClosed .outbound result) c₁
  | takeFromUser {writing now feed incoming refused} :
      c.feed.takeRequest = (feed, .item incoming, refused) →
      Prepares c (.task (.requests .inbound) writing now) (.took .inbound (some incoming))
        ({ c with feed }.deliverVerdicts refused)
  | takeEndFromUser {writing now feed refused} : c.feed.takeRequest = (feed, .ended, refused) →
      Prepares c (.task (.requests .inbound) writing now) (.took .inbound none)
        ({ c with feed }.deliverVerdicts refused)
  | recordCommand {writing now command c₁} :
      c.record? (c.streams.commands.recordLine? now command) = some c₁ →
      Prepares c (.task (.requests .inbound) writing now) (.recordedCommand command) c₁
  | sendToEnded {writing now incoming} : c.owner.ended = true →
      Prepares c (.task (.requests .inbound) writing now)
        (.sent .inbound incoming (.error (.closed .outbound))) c
  | collect {writing now incoming call result} : c.forwardCall = some call →
      c.answered.lookup call = some result →
      Prepares c (.task (.requests .inbound) writing now) (.sent .inbound incoming result)
        { c with forwardCall := none }
  | replyToUser {writing now accepted feed verdicts} : c.feed.reply accepted = (feed, verdicts) →
      Prepares c (.task (.requests .inbound) writing now) (.replied .inbound accepted (.ok ()))
        ({ c with feed }.deliverVerdicts verdicts)
  | takeFromHost {writing now requests incoming} :
      c.owner.demux.requests.take = (requests, .item incoming) →
      Prepares c (.task (.requests .outbound) writing now) (.took .outbound (some incoming))
        { c with owner := { c.owner with demux := { c.owner.demux with requests } } }
  | takeEndFromHost {writing now requests} : c.owner.demux.requests.take = (requests, .ended) →
      Prepares c (.task (.requests .outbound) writing now) (.took .outbound none)
        { c with owner := { c.owner with demux := { c.owner.demux with requests } } }
  | sendToUser {writing now incoming c₁ result} :
      c.requestToUser? incoming.request = some (c₁, result) →
      Prepares c (.task (.requests .outbound) writing now) (.sent .outbound incoming result) c₁
  | replyToHost {writing now accepted} :
      Prepares c (.task (.requests .outbound) writing now) (.replied .outbound accepted (.ok ())) c
  | report {task} : Prepares c (.report task) (.reports task) c
  | die {task} : Prepares c (.dies task) (.dies task) c
  | seeError : Prepares c (.control .seesError) .seesError c
  | seeCompletion : Prepares c (.control .seesCompletion) .seesCompletion c
  | seeNothing : Prepares c (.control .seesNothing) .seesNothing c
  | findHostClosed : c.closeCall = none → c.owner.ended = true →
      Prepares c (.control (.closed .outbound)) (.closed .outbound) c
  | closeHost {call} : c.closeCall = some call →
      (call ∈ c.closeAnswered ∨ c.owner.ended = true) →
      Prepares c (.control (.closed .outbound)) (.closed .outbound) { c with closeCall := none }
  | closeUser {c₁ result} : c.post? .close = some (c₁, result) →
      Prepares c (.control (.closed .inbound)) (.closed .inbound) c₁

/-- The steps in which the pipe takes none. -/
inductive Alone (c : Channel) : ChannelAction → Channel → Prop where
  | user {input} : c.callback = .idle → c.link ≠ .gone → Alone c (.user input) (c.call input)
  | handler {c'} : c.resume? = some c' → Alone c .handler c'
  | deliver {message outbox link seen sent} : c.callback = .idle → c.outbox = message :: outbox →
      c.link.send message = (link, seen, sent) →
      Alone c .deliver
        { c with outbox, link, passed := { c.passed with toUser := c.passed.toUser ++ seen } }
  | lost :
      Alone c .lost { c with link := .gone, callback := .idle, feed := c.feed.close, outbox := [] }
  | ask {writing now incoming} : c.pipe.forwarding .inbound = .sending incoming →
      c.forwardCall = none → c.owner.ended = false → c.commands.length < commandDepth →
      Alone c (.task (.requests .inbound) writing now)
        { c with
          forwardCall := some c.nextCall
          nextCall := c.nextCall + 1
          commands := c.commands ++ [.request c.nextCall incoming.request incoming.wantReply] }
  | askToClose {todo result} : c.pipe.control = .closing (.outbound :: todo) result →
      c.closeCall = none → c.owner.ended = false → c.commands.length < commandDepth →
      Alone c (.control (.closed .outbound))
        { c with
          closeCall := some c.nextCall
          nextCall := c.nextCall + 1
          commands := c.commands ++ [.close c.nextCall] }
  | release {owner effects} : c.owner.step? .release = some (owner, effects) →
      Alone c .release (effects.foldl effect { c with owner })
  | read {message inbox owner effects} : c.inbox = message :: inbox →
      c.owner.step? (.message message) = some (owner, effects) →
      Alone c .read (effects.foldl effect { c with inbox, owner })
  | obey {command commands sending owner effects} : c.commands = command :: commands →
      c.owner.step? (.command command sending) = some (owner, effects) →
      Alone c (.obey sending) (effects.foldl effect { c with commands, owner })
  | finish {owner effects} : c.callersGone = true →
      c.owner.step? .finish = some (owner, effects) →
      Alone c .finish (effects.foldl effect { c with owner })
  | host {message} :
      Alone c (.host message)
        { c with
          inbox := c.inbox ++ [message]
          passed := { c.passed with fromHost := c.passed.fromHost ++ [message] } }
  | write {outcome} : Alone c (.write outcome) { c with log := c.log.write outcome }

variable {c c' : Channel} {action : ChannelAction}

/-- A step of the channel that goes along with one of its pipe. -/
def Moves (c : Channel) (action : ChannelAction) (c' : Channel) : Prop :=
  ∃ a c₁ p, Prepares c action a c₁ ∧ c₁.pipe.step? a = some p ∧ c' = { c₁ with pipe := p }.dropEnded

theorem moves_of_advance? {a : PipeAction} {c₁ : Channel} (hprepares : Prepares c action a c₁)
    (h : c₁.advance? a = some c') : Moves c action c' := by
  unfold advance? at h
  rcases hstep : c₁.pipe.step? a with _ | p
  · rw [hstep] at h
    cases h
  · rw [hstep] at h
    cases h
    exact ⟨a, c₁, p, hprepares, hstep, rfl⟩

theorem moves_of_copyToHost? {writing : Except String Unit} {now : Time.Unix}
    (h : c.copyToHost? writing now = some c') :
    Moves c (.task (.data .inbound) writing now) c' := by
  unfold copyToHost? at h
  split at h
  · split at h
    · next htake => exact moves_of_advance? (.readFromUser htake) h
    · next htake => exact moves_of_advance? (.readEndFromUser htake) h
    · cases h
  · obtain ⟨c₁, hrecord, h⟩ := Option.bind_eq_some_iff.mp h
    exact moves_of_advance? (.recordFromUser hrecord) h
  · exact moves_of_advance? (.writeToHost rfl) h
  · exact moves_of_advance? (.halfCloseHost rfl) h
  · cases h
  · cases h

theorem moves_of_copyToUser? {writing : Except String Unit} {now : Time.Unix}
    (h : c.copyToUser? now = some c') : Moves c (.task (.data .outbound) writing now) c' := by
  unfold copyToUser? at h
  split at h
  · dsimp only at h
    split at h
    · next htake => exact moves_of_advance? (.readFromHost (Prod.ext rfl htake)) h
    · next htake => exact moves_of_advance? (.readEndFromHost (Prod.ext rfl htake)) h
    · cases h
  · obtain ⟨c₁, hrecord, h⟩ := Option.bind_eq_some_iff.mp h
    exact moves_of_advance? (.recordFromHost hrecord) h
  · obtain ⟨⟨c₁, result⟩, hpost, h⟩ := Option.bind_eq_some_iff.mp h
    exact moves_of_advance? (.writeToUser hpost) h
  · obtain ⟨⟨c₁, result⟩, hpost, h⟩ := Option.bind_eq_some_iff.mp h
    exact moves_of_advance? (.halfCloseUser hpost) h
  · cases h
  · cases h

theorem step_of_requestFromOwner? {incoming : Incoming} {writing : Except String Unit}
    {now : Time.Unix} (hstate : c.pipe.forwarding .inbound = .sending incoming)
    (h : c.requestFromOwner? incoming = some c') :
    Alone c (.task (.requests .inbound) writing now) c' ∨
      Moves c (.task (.requests .inbound) writing now) c' := by
  unfold requestFromOwner? at h
  split at h
  · next hcall =>
    split_ifs at h with hended hroom
    · exact .inr (moves_of_advance? (.sendToEnded hended) h)
    · cases h
      exact .inl (.ask hstate hcall (Bool.eq_false_iff.mpr hended) hroom)
  · next call hcall =>
    obtain ⟨result, hresult, h⟩ := Option.bind_eq_some_iff.mp h
    exact .inr (moves_of_advance? (.collect hcall hresult) h)

theorem step_of_forwardToHost? {writing : Except String Unit} {now : Time.Unix}
    (h : c.forwardToHost? now = some c') :
    Alone c (.task (.requests .inbound) writing now) c' ∨
      Moves c (.task (.requests .inbound) writing now) c' := by
  unfold forwardToHost? at h
  split at h
  · dsimp only at h
    split at h
    · next htake =>
      exact .inr (moves_of_advance? (.takeFromUser (Prod.ext rfl (Prod.ext htake rfl))) h)
    · next htake =>
      exact .inr (moves_of_advance? (.takeEndFromUser (Prod.ext rfl (Prod.ext htake rfl))) h)
    · cases h
  · split at h
    · obtain ⟨c₁, hrecord, h⟩ := Option.bind_eq_some_iff.mp h
      exact .inr (moves_of_advance? (.recordCommand hrecord) h)
    · cases h
  · next hstate => exact step_of_requestFromOwner? hstate h
  · exact .inr (moves_of_advance? (.replyToUser rfl) h)
  · cases h
  · cases h

theorem moves_of_forwardToUser? {writing : Except String Unit} {now : Time.Unix}
    (h : c.forwardToUser? = some c') : Moves c (.task (.requests .outbound) writing now) c' := by
  unfold forwardToUser? at h
  split at h
  · dsimp only at h
    split at h
    · next htake => exact moves_of_advance? (.takeFromHost (Prod.ext rfl htake)) h
    · next htake => exact moves_of_advance? (.takeEndFromHost (Prod.ext rfl htake)) h
    · cases h
  · obtain ⟨⟨c₁, result⟩, hsend, h⟩ := Option.bind_eq_some_iff.mp h
    exact moves_of_advance? (.sendToUser hsend) h
  · exact moves_of_advance? .replyToHost h
  · cases h
  · cases h
  · cases h

theorem step_of_closeHost? {todo : List Side} {result : Option (Except RelayError Unit)}
    (hcontrol : c.pipe.control = .closing (.outbound :: todo) result)
    (h : c.closeHost? = some c') :
    Alone c (.control (.closed .outbound)) c' ∨ Moves c (.control (.closed .outbound)) c' := by
  unfold closeHost? at h
  split at h
  · next hcall =>
    split_ifs at h with hended hroom
    · exact .inr (moves_of_advance? (.findHostClosed hcall hended) h)
    · cases h
      exact .inl (.askToClose hcontrol hcall (Bool.eq_false_iff.mpr hended) hroom)
  · next call hcall =>
    split_ifs at h with hanswered
    rw [Bool.or_eq_true, decide_eq_true_iff] at hanswered
    exact .inr (moves_of_advance? (.closeHost hcall hanswered) h)

theorem step_of_control? {a : PipeAction} (h : c.control? a = some c') :
    Alone c (.control a) c' ∨ Moves c (.control a) c' := by
  unfold control? at h
  split at h
  · split at h
    · next todo result hcontrol => exact step_of_closeHost? hcontrol h
    · cases h
  · split at h
    · obtain ⟨⟨c₁, result⟩, hpost, h⟩ := Option.bind_eq_some_iff.mp h
      exact .inr (moves_of_advance? (.closeUser hpost) h)
    · cases h
  · exact .inr (moves_of_advance? .seeError h)
  · exact .inr (moves_of_advance? .seeCompletion h)
  · exact .inr (moves_of_advance? .seeNothing h)
  · cases h

theorem step_of_own? {a : OwnerAction} (h : c.own? a = some c') :
    ∃ owner effects, c.owner.step? a = some (owner, effects) ∧
      effects.foldl effect { c with owner } = c' := by
  obtain ⟨⟨owner, effects⟩, hstep, heq⟩ := Option.bind_eq_some_iff.mp h
  exact ⟨owner, effects, hstep, Option.some.inj heq⟩

/-- There are no other steps. -/
theorem step_of_step? (h : c.step? action = some c') :
    Alone c action c' ∨ Moves c action c' := by
  unfold step? at h
  split at h
  · split_ifs at h with hidle
    cases h
    rw [Bool.and_eq_true, decide_eq_true_iff, decide_eq_true_iff] at hidle
    exact .inl (.user hidle.1 hidle.2)
  · exact .inl (.handler h)
  · unfold deliver? at h
    split at h
    · next message outbox hidle houtbox =>
      cases h
      exact .inl (.deliver hidle houtbox rfl)
    · cases h
  · cases h
    exact .inl .lost
  · exact .inr (moves_of_copyToHost? h)
  · exact .inr (moves_of_copyToUser? h)
  · exact step_of_forwardToHost? h
  · exact .inr (moves_of_forwardToUser? h)
  · exact .inr (moves_of_advance? .report h)
  · exact .inr (moves_of_advance? .die h)
  · exact step_of_control? h
  · obtain ⟨owner, effects, hstep, rfl⟩ := step_of_own? h
    exact .inl (.release hstep)
  · split at h
    · next message inbox hinbox =>
      obtain ⟨owner, effects, hstep, rfl⟩ := step_of_own? h
      exact .inl (.read hinbox hstep)
    · cases h
  · split at h
    · next command commands hcommands =>
      obtain ⟨owner, effects, hstep, rfl⟩ := step_of_own? h
      exact .inl (.obey hcommands hstep)
    · cases h
  · split_ifs at h with hgone
    obtain ⟨owner, effects, hstep, rfl⟩ := step_of_own? h
    exact .inl (.finish hgone hstep)
  · cases h
    exact .inl .host
  · split_ifs at h
    cases h
    exact .inl .write

/-! ### What the parts of a step change -/

/-- What is put into the outbox of a connection that is not gone is there, and nothing else happens. -/
theorem post?_cases {message : UserMessage} {result : Except RelayError Unit}
    (h : c.post? message = some (c₁, result)) :
    (c₁ = c ∧ ∃ e, result = .error e) ∨
      (c₁ = { c with outbox := c.outbox ++ [message] } ∧ result = .ok ()) := by
  unfold post? at h
  split_ifs at h
  · cases h
    exact .inl ⟨rfl, _, rfl⟩
  · cases h
    exact .inr ⟨rfl, rfl⟩

theorem post?_eq {message : UserMessage} {result : Except RelayError Unit} {c₁ : Channel}
    (h : c.post? message = some (c₁, result)) : ∃ outbox, c₁ = { c with outbox } := by
  unfold post? at h
  split_ifs at h <;> cases h <;> exact ⟨_, rfl⟩

theorem requestToUser?_eq {request : Request} {result : Except RelayError Bool} {c₁ : Channel}
    (h : c.requestToUser? request = some (c₁, result)) : ∃ outbox, c₁ = { c with outbox } := by
  have htold : ∀ message : UserMessage, requestToUser?.told c message = some (c₁, result) →
      ∃ outbox, c₁ = { c with outbox } := by
    intro message htold
    obtain ⟨⟨c₂, posted⟩, hpost, heq⟩ := Option.bind_eq_some_iff.mp htold
    cases heq
    exact post?_eq hpost
  unfold requestToUser? at h
  split at h
  · exact htold _ h
  · exact htold _ h
  · cases h
    exact ⟨_, rfl⟩

theorem record?_eq {record : Option Bytes} {c₁ : Channel} (h : c.record? record = some c₁) :
    ∃ log, c₁ = { c with log } := by
  unfold record? at h
  split_ifs at h
  cases h
  exact ⟨_, rfl⟩

theorem writeToHost_eq (c : Channel) (chunk : Chunk) (writing : Except String Unit) :
    ∃ dataToHost, (c.writeToHost chunk writing).1 =
      { c with passed := { c.passed with dataToHost } } := by
  unfold writeToHost
  split
  · exact ⟨_, rfl⟩
  · split <;> exact ⟨_, rfl⟩

theorem halfCloseHost_eq (c : Channel) (writing : Except String Unit) :
    ∃ halfCloses, (c.halfCloseHost writing).1 =
      { c with passed := { c.passed with halfCloses } } := by
  unfold halfCloseHost
  split
  · exact ⟨_, rfl⟩
  · split <;> exact ⟨_, rfl⟩

/-- Of some verdicts the handler hears only the one that it waits for. -/
theorem deliverVerdicts_cases (c : Channel) (verdicts : List FeedVerdict) :
    c.deliverVerdicts verdicts = c ∨
      ∃ v ∈ verdicts, c.callback = .awaiting v.asker ∧
        c.deliverVerdicts verdicts = c.settle v.asker (some v.accepted) := by
  have hidle : ∀ (verdicts : List FeedVerdict) (c : Channel), c.callback = .idle →
      c.deliverVerdicts verdicts = c := by
    intro verdicts c hidle
    induction verdicts with
    | nil => rfl
    | cons v verdicts ih =>
      have hnot : c.callback ≠ .awaiting v.asker := by rw [hidle]; nofun
      rw [deliverVerdicts, List.foldl_cons, if_neg hnot]
      exact ih
  induction verdicts with
  | nil => exact .inl rfl
  | cons v verdicts ih =>
    rw [deliverVerdicts, List.foldl_cons]
    by_cases hcallback : c.callback = .awaiting v.asker
    · rw [if_pos hcallback]
      exact .inr ⟨v, List.mem_cons_self, hcallback, hidle verdicts _ rfl⟩
    · rw [if_neg hcallback]
      rcases ih with hsame | ⟨other, hmem, hother⟩
      · exact .inl hsame
      · exact .inr ⟨other, List.mem_cons_of_mem v hmem, hother⟩

theorem deliverVerdicts_pipe (c : Channel) (verdicts : List FeedVerdict) :
    (c.deliverVerdicts verdicts).pipe = c.pipe := by
  rcases c.deliverVerdicts_cases verdicts with hsame | ⟨v, -, -, hsettle⟩
  · rw [hsame]
  · rw [hsettle]
    rfl

theorem dropEnded_pipe (c : Channel) : c.dropEnded.pipe = c.pipe := by
  unfold Channel.dropEnded
  exact deliverVerdicts_pipe _ _

/-- The handler has no part in what lies behind its queues. -/
def Handles (c c' : Channel) : Prop :=
  ∃ callback nextAsker feed link fromUser toUser verdicts,
    c' = { c with
      callback, nextAsker, feed, link, passed := { c.passed with fromUser, toUser, verdicts } }

theorem handles_offer (c : Channel) (chunk : Chunk) : Handles c (c.offer chunk) := by
  unfold offer
  split <;> exact ⟨_, _, _, _, _, _, _, rfl⟩

theorem handles_ask (c : Channel) (asker : AskId) (request : Request) :
    Handles c (c.ask asker request) := by
  unfold ask
  split <;> exact ⟨_, _, _, _, _, _, _, rfl⟩

theorem handles_call (c : Channel) (input : UserInput) : Handles c (c.call input) := by
  cases input with
  | data chunk =>
    obtain ⟨callback, nextAsker, feed, link, fromUser, toUser, verdicts, heq⟩ := handles_offer
      { c with passed := { c.passed with fromUser := c.passed.fromUser ++ [.data chunk] } } chunk
    exact ⟨callback, nextAsker, feed, link, fromUser, toUser, verdicts, heq⟩
  | request request =>
    obtain ⟨callback, nextAsker, feed, link, fromUser, toUser, verdicts, heq⟩ := handles_ask
      { c with
        passed := { c.passed with fromUser := c.passed.fromUser ++ [.request request] }
        nextAsker := c.nextAsker + 1 } c.nextAsker request
    exact ⟨callback, nextAsker, feed, link, fromUser, toUser, verdicts, heq⟩
  | eof | close => exact ⟨_, _, _, _, _, _, _, rfl⟩

theorem handles_resume? (h : c.resume? = some c') : Handles c c' := by
  unfold resume? at h
  split at h
  · split_ifs at h
    cases h
    exact handles_offer c _
  · split_ifs at h
    cases h
    exact handles_ask c _ _
  · cases h
  · cases h

/-- What the owner does to the world does not bear on what passes through the relay. -/
theorem effects_eq (effects : List OwnerEffect) (c : Channel) :
    ∃ answered closeAnswered requestsToHost closes, effects.foldl effect c = { c with
      answered, closeAnswered, passed := { c.passed with requestsToHost, closes } } := by
  induction effects generalizing c with
  | nil => exact ⟨_, _, _, _, rfl⟩
  | cons e effects ih =>
    obtain ⟨answered, closeAnswered, requestsToHost, closes, heq⟩ := ih (c.effect e)
    rw [List.foldl_cons, heq]
    cases e <;> exact ⟨_, _, _, _, rfl⟩

end Channel

end Gatehouse.Relay
