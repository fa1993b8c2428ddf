import Gatehouse.Proofs.Relay.Data
import Gatehouse.Proofs.Relay.RecordWay
import Gatehouse.Proofs.Relay.Verdict

/-!
# Whoever waits for a verdict is not forgotten

`tended_of_reachable`: in every channel that can be reached, a handler that waits for a verdict waits for
a request that is in the queue or was taken last, and the task that forwards it has not come to its end.

Proof. Every step keeps `Channel.Tended`. A request leaves the queue only to become the one that was taken
last, and that one is forgotten only when its verdict is told (`known_of_prepares`); a task that comes to
its end refuses everyone who waits (`heeds_dropEnded`). The queues behind the owner are looked after in the
same way: the queue of a task that has come to its end is left by its reader, and a task comes to the end of
data only where the owner has left.
-/

namespace Gatehouse.Relay

/-! ### Queues that an end has left -/

namespace Queue

variable {α : Type} {q q' q'' : Queue α}

/-- The producer or the reader has left. -/
def IsLeft (q : Queue α) : Prop :=
  q.fed = false ∨ q.read = false

/-- A queue at a later moment: nobody who has left is back. -/
structure Later (q q' : Queue α) : Prop where
  depth : q'.depth = q.depth
  left : q.IsLeft → q'.IsLeft

theorem Later.refl (q : Queue α) : Later q q :=
  ⟨rfl, id⟩

theorem Later.trans (h : Later q q') (h' : Later q' q'') : Later q q'' :=
  ⟨h'.depth.trans h.depth, h'.left ∘ h.left⟩

theorem later_push (q : Queue α) (a : α) : Later q (q.push a).1 := by
  unfold push
  split_ifs
  · exact .refl q
  · exact ⟨rfl, fun _ => .inl rfl⟩
  · exact ⟨rfl, id⟩
  · exact .refl q

theorem later_take (q : Queue α) : Later q q.take.1 := by
  unfold take
  split <;> exact ⟨rfl, id⟩

theorem later_finish (q : Queue α) : Later q q.finish :=
  ⟨rfl, fun _ => .inl rfl⟩

theorem isLeft_abandon (q : Queue α) : q.abandon.IsLeft :=
  .inr rfl

theorem later_abandon (q : Queue α) : Later q q.abandon :=
  ⟨rfl, fun _ => q.isLeft_abandon⟩

/-- Somebody waits for room only in a queue that nobody has left and that is full. -/
theorem full_of_hasRoom (h : q.hasRoom = false) : ¬ q.IsLeft ∧ q.depth ≤ q.items.length := by
  simpa [hasRoom, IsLeft] using h

theorem take_of_full (hdepth : 0 < q.depth) (h : q.hasRoom = false) :
    ∃ q' a, q.take = (q', .item a) := by
  have hfull := (full_of_hasRoom h).2
  unfold take
  split
  · exact ⟨_, _, rfl⟩
  · next hnone =>
    rw [hnone, List.length_nil] at hfull
    omega

end Queue

namespace Demux

/-- The queues at a later moment. -/
structure Later (d d' : Demux) : Prop where
  data : d.data.Later d'.data
  requests : d.requests.Later d'.requests

theorem Later.refl (d : Demux) : Later d d :=
  ⟨.refl _, .refl _⟩

theorem Later.trans {d d' d'' : Demux} (h : Later d d') (h' : Later d' d'') : Later d d'' :=
  ⟨h.data.trans h'.data, h.requests.trans h'.requests⟩

theorem later_push (d : Demux) (delivery : Delivery) : Later d (d.push delivery) := by
  cases delivery with
  | data chunk => exact ⟨d.data.later_push chunk, .refl _⟩
  | request request => exact ⟨.refl _, d.requests.later_push request⟩

theorem later_release (d : Demux) : Later d d.release := by
  unfold release
  split
  · exact later_push _ _
  · exact .refl d

theorem later_endData (d : Demux) : Later d d.endData :=
  ⟨d.data.later_finish, .refl _⟩

theorem later_endAll (d : Demux) : Later d d.endAll :=
  ⟨d.data.later_finish, d.requests.later_finish⟩

end Demux

namespace Owner

variable {o o' : Owner} {a : OwnerAction} {effects : List OwnerEffect}

theorem verdict_keeps (o : Owner) (accepted : Bool) :
    (o.verdict accepted).1.demux = o.demux ∧
      (o.verdict accepted).1.remoteClosed = o.remoteClosed := by
  unfold verdict
  split <;> exact ⟨rfl, rfl⟩

/-- No step of the owner brings anybody back to its queues. -/
theorem later_of_step? (h : o.step? a = some (o', effects)) : o.demux.Later o'.demux := by
  cases a with
  | release =>
    obtain ⟨-, -, -, rfl, -⟩ := step?_release h
    exact o.demux.later_release
  | message m =>
    obtain ⟨-, -, -, hreceive⟩ := step?_message h
    rw [show o' = (o.receive m).1 from (congrArg Prod.fst hreceive).symm]
    cases m with
    | data | exitStatus | exitSignal =>
      dsimp only [receive]
      exact o.demux.later_push _
    | eof => exact o.demux.later_endData
    | success | failure =>
      rw [receive, (o.verdict_keeps _).1]
      exact .refl _
    | close => exact o.demux.later_endAll
    | other => exact .refl _
  | command command sending =>
    obtain ⟨-, hobey⟩ := step?_command h
    rw [show o' = (o.obey sending command).1 from (congrArg Prod.fst hobey).symm,
      (o.obey_keeps sending command).1]
    exact .refl _
  | finish =>
    obtain ⟨-, rfl, -⟩ := step?_finish h
    exact o.demux.later_endAll

/-- No call waits for a host that has closed the channel. -/
theorem pending_of_step? (h : o.step? a = some (o', effects))
    (hpending : o.remoteClosed = true → o.pending = []) :
    o'.remoteClosed = true → o'.pending = [] := by
  cases a with
  | release =>
    obtain ⟨-, -, -, rfl, -⟩ := step?_release h
    exact hpending
  | message m =>
    obtain ⟨-, hopen, -, hreceive⟩ := step?_message h
    rw [show o' = (o.receive m).1 from (congrArg Prod.fst hreceive).symm]
    intro hclosed
    cases m with
    | close => rfl
    | success | failure =>
      rw [receive, (o.verdict_keeps _).2] at hclosed
      cases hopen.symm.trans hclosed
    | data | eof | exitStatus | exitSignal | other => cases hopen.symm.trans hclosed
  | command command sending =>
    obtain ⟨-, hobey⟩ := step?_command h
    rw [show o' = (o.obey sending command).1 from (congrArg Prod.fst hobey).symm]
    intro hclosed
    rw [(o.obey_keeps sending command).2] at hclosed
    have hrefuses : o.isClosed = true := by rw [isClosed, hclosed, Bool.true_or]
    cases command <;> simp [obey, hrefuses, hpending hclosed]
  | finish =>
    obtain ⟨-, rfl, -⟩ := step?_finish h
    exact fun _ => rfl

/-- The owner ends only when it is let go. -/
theorem ended_of_step? (h : o.step? a = some (o', effects)) (hended : o'.ended = true) :
    a = .finish := by
  cases a with
  | release =>
    obtain ⟨hnot, -, -, rfl, -⟩ := step?_release h
    cases hnot.symm.trans hended
  | message m =>
    obtain ⟨hnot, -, -, hreceive⟩ := step?_message h
    rw [show o' = (o.receive m).1 from (congrArg Prod.fst hreceive).symm, (o.receive_keeps m).2.1] at hended
    cases hnot.symm.trans hended
  | command command sending =>
    obtain ⟨hnot, hobey⟩ := step?_command h
    rw [show o' = (o.obey sending command).1 from (congrArg Prod.fst hobey).symm,
      (o.obey_closes sending command).2] at hended
    cases hnot.symm.trans hended
  | finish => rfl

end Owner

/-! ### The pipe -/

namespace Pipe

variable {p p' : Pipe} {a : PipeAction}

/-- A forwarding task records nothing but commands of the user. -/
def RecordsCommands (p : Pipe) : Prop :=
  ∀ source incoming, p.forwarding source = .recording incoming →
    source = .inbound ∧ ∃ command, incoming.request = .exec command

theorem afterTake_recording {source : Side} {request incoming : Incoming}
    (h : p.afterTake source request = .recording incoming) :
    source = .inbound ∧ ∃ command, incoming.request = .exec command := by
  unfold afterTake at h
  split at h
  · next command hrequest =>
    split_ifs at h
    cases h
    exact ⟨rfl, command, hrequest⟩
  · cases h

theorem RecordsCommands.step (h : p.RecordsCommands) (hstep : Step p a p') : p'.RecordsCommands := by
  intro side incoming hrecording
  by_cases hmine : a.worker? = some (.requests side)
  · cases hstep with
    | took =>
      cases hmine
      rw [forwarding_setForwarding] at hrecording
      exact afterTake_recording hrecording
    | sent =>
      cases hmine
      rw [forwarding_setForwarding] at hrecording
      split_ifs at hrecording
    | tookEnd | recordedCommand | sendError | replied | replyError =>
      cases hmine
      rw [forwarding_setForwarding] at hrecording
      cases hrecording
    | _ => cases hmine
  · rcases unmoved_of_step hstep hmine with hsame | hgone
    · exact h side incoming (hsame.symm.trans hrecording)
    · rw [isGone_requests.mp hgone] at hrecording
      cases hrecording

/-- A copying task tells of the end of data only where it has come to it. -/
theorem halfClosing_of_step (hstep : Step p a p') {source : Side}
    (h : p'.copying source = .halfClosing) :
    p.copying source = .halfClosing ∨ a = .read source (.ok none) := by
  by_cases hmine : a.worker? = some (.data source)
  · cases hstep with
    | readEnd =>
      cases hmine
      exact .inr rfl
    | @readChunk _ chunk =>
      cases hmine
      rw [copying_setCopying, afterRead] at h
      split_ifs at h
    | readError | recorded | wrote | writeError | halfClosed =>
      cases hmine
      rw [copying_setCopying] at h
      cases h
    | _ => cases hmine
  · rcases unmoved_of_step hstep hmine with hsame | hgone
    · exact .inl (hsame.symm.trans h)
    · rw [isGone_data.mp hgone] at h
      cases h

end Pipe

/-! ### The handler -/

/-- Who waits for a verdict on a queued request, or on the one that was taken last. -/
def Feed.waiting (f : Feed) : List AskId :=
  f.owed.toList ++ f.requests.items.filterMap Asked.asker

namespace Channel

variable {c c' c₁ : Channel} {action : ChannelAction} {a : PipeAction} {p : Pipe}

/-- The handler waits for a verdict. -/
def IsWaiting (c : Channel) : Prop :=
  ∃ asker, c.callback = .awaiting asker

/-- Whoever waits is known to the relay, and nobody waits for a task that has come to its end. -/
structure Heeds (c : Channel) : Prop where
  known : ∀ asker, c.callback = .awaiting asker → asker ∈ c.feed.waiting
  refused : c.isOver (.requests .inbound) = true → c.feed.requests.IsLeft ∧ ¬ c.IsWaiting

theorem Heeds.of_eq (h : Heeds c) (hcallback : c'.callback = c.callback) (hfeed : c'.feed = c.feed)
    (hpipe : c'.pipe = c.pipe) : Heeds c' := by
  constructor
  · rw [hcallback, hfeed]
    exact h.known
  · rw [isOver, hpipe, hfeed, IsWaiting, hcallback]
    exact h.refused

/-- The handler does not wait any more, or not yet. -/
theorem Heeds.of_not (h : Heeds c) (hnot : ¬ c'.IsWaiting) (hpipe : c'.pipe = c.pipe)
    (hleft : c.feed.requests.IsLeft → c'.feed.requests.IsLeft) : Heeds c' := by
  refine ⟨fun asker hwaits => absurd ⟨asker, hwaits⟩ hnot, fun hover => ?_⟩
  rw [isOver, hpipe] at hover
  exact ⟨hleft (h.refused hover).1, hnot⟩

theorem not_isWaiting_of_idle (h : c.callback = .idle) : ¬ c.IsWaiting := by
  rintro ⟨asker, hwaits⟩
  cases h.symm.trans hwaits

theorem Heeds.ask (h : Heeds c) (asker : AskId) (request : Request) : Heeds (c.ask asker request) := by
  rcases ask_cases c.feed asker request with ⟨-, hask⟩ | ⟨hfed, hread, hask | hask⟩
  · rw [Channel.ask, hask]
    exact h.of_not (not_isWaiting_of_idle rfl) rfl id
  · rw [Channel.ask, hask]
    refine h.of_not ?_ rfl id
    rintro ⟨other, hno⟩
    cases hno
  · -- The queue takes the request, so the task that reads from it is still there.
    have hactive : ¬ c.isOver (.requests .inbound) = true := by
      intro hover
      rcases (h.refused hover).1 with hno | hno
      · cases hfed.symm.trans hno
      · cases hread.symm.trans hno
    by_cases hwants : request.wantsReply = true
    · rw [Channel.ask, hask, if_pos hwants]
      refine ⟨fun other hwaits => ?_, fun hover => absurd hover hactive⟩
      cases hwaits
      simp [Feed.waiting, withRequest, Asked.of, hwants]
    · rw [Channel.ask, hask, if_neg hwants]
      refine ⟨fun other hwaits => ?_, fun hover => absurd hover hactive⟩
      cases hwaits

theorem Heeds.offer (h : Heeds c) (chunk : Chunk) : Heeds (c.offer chunk) := by
  have hrequests : (c.feed.offer chunk).1.requests = c.feed.requests := rfl
  unfold Channel.offer
  split
  · next feed heq =>
    rw [heq] at hrequests
    exact h.of_not (not_isWaiting_of_idle rfl) rfl fun hleft => hrequests ▸ hleft
  · refine h.of_not ?_ rfl id
    rintro ⟨other, hno⟩
    cases hno

theorem Heeds.call (h : Heeds c) (hidle : c.callback = .idle) (input : UserInput) :
    Heeds (c.call input) := by
  have hcalled : Heeds { c with
      passed := { c.passed with fromUser := c.passed.fromUser ++ [input] } } := h.of_eq rfl rfl rfl
  cases input with
  | data chunk => exact hcalled.offer chunk
  | eof => exact h.of_not (not_isWaiting_of_idle hidle) rfl id
  | request request =>
    have hcounted : Heeds { c with
        nextAsker := c.nextAsker + 1
        passed := { c.passed with fromUser := c.passed.fromUser ++ [.request request] } } :=
      h.of_eq rfl rfl rfl
    exact hcounted.ask _ request
  | close => exact h.of_not (not_isWaiting_of_idle hidle) rfl (Queue.later_finish _).left

theorem Heeds.resume (h : Heeds c) (hresume : c.resume? = some c') : Heeds c' := by
  unfold resume? at hresume
  split at hresume
  · split_ifs at hresume
    cases hresume
    exact h.offer _
  · split_ifs at hresume
    cases hresume
    exact h.ask _ _
  · cases hresume
  · cases hresume

theorem Heeds.effects (h : Heeds c) (effects : List OwnerEffect) : Heeds (effects.foldl effect c) := by
  obtain ⟨answered, closeAnswered, requestsToHost, closes, heq⟩ := effects_eq effects c
  rw [heq]
  exact h.of_eq rfl rfl rfl

theorem Heeds.alone (h : Heeds c) (hstep : Alone c action c') : Heeds c' := by
  cases hstep with
  | user hidle _ => exact h.call hidle _
  | handler hresume => exact h.resume hresume
  | lost => exact h.of_not (not_isWaiting_of_idle rfl) rfl (Queue.later_finish _).left
  | release | read | obey | finish =>
    refine Heeds.effects ?_ _
    exact h.of_eq rfl rfl rfl
  | _ => exact h.of_eq rfl rfl rfl

/-! ### Verdicts on the way to the handler -/

/-- Who still waits after some verdicts has not been told one. -/
theorem awaiting_of_deliverVerdicts {verdicts : List FeedVerdict} {asker : AskId}
    (h : (c.deliverVerdicts verdicts).callback = .awaiting asker) :
    c.callback = .awaiting asker ∧ asker ∉ verdicts.map FeedVerdict.asker := by
  induction verdicts generalizing c with
  | nil => exact ⟨h, List.not_mem_nil⟩
  | cons v verdicts ih =>
    rw [deliverVerdicts, List.foldl_cons] at h
    by_cases hmine : c.callback = .awaiting v.asker
    · rw [if_pos hmine] at h
      cases (ih h).1
    · rw [if_neg hmine] at h
      obtain ⟨hwaits, hrest⟩ := ih h
      refine ⟨hwaits, ?_⟩
      rw [List.map_cons, List.mem_cons, not_or]
      exact ⟨fun heq => hmine (heq ▸ hwaits), hrest⟩

theorem deliverVerdicts_feed (c : Channel) (verdicts : List FeedVerdict) :
    (c.deliverVerdicts verdicts).feed = c.feed := by
  obtain ⟨callback, toUser, told, -, heq⟩ := deliverVerdicts_eq c verdicts
  rw [heq]

theorem refusals_asker (askers : List AskId) : (Feed.refusals askers).map FeedVerdict.asker = askers := by
  rw [Feed.refusals, List.map_map]
  exact List.map_id _

/-- Whom the relay forgets in taking a request it has told. -/
theorem heard_of_takeRequest {f feed : Feed} {incoming : Incoming} {refused : List FeedVerdict}
    (h : f.takeRequest = (feed, .item incoming, refused)) {asker : AskId} (hmem : asker ∈ f.waiting) :
    asker ∈ refused.map FeedVerdict.asker ∨ asker ∈ feed.waiting := by
  unfold Feed.takeRequest at h
  split at h
  · next requests item htake =>
    cases h
    rw [refusals_asker]
    rw [Feed.waiting, List.mem_append, Queue.take_item htake] at hmem
    refine hmem.imp_right fun hqueued => ?_
    rw [Feed.waiting, List.mem_append]
    cases hasker : item.asker with
    | none =>
      rw [List.filterMap_cons_none hasker] at hqueued
      exact .inr hqueued
    | some other =>
      rw [List.filterMap_cons_some hasker, List.mem_cons] at hqueued
      exact hqueued.imp_left List.mem_singleton.mpr
  · cases h
  · cases h

/-- Whom the relay forgets in answering it has told. -/
theorem heard_of_reply {f feed : Feed} {accepted : Bool} {verdicts : List FeedVerdict}
    (h : f.reply accepted = (feed, verdicts)) {asker : AskId} (hmem : asker ∈ f.waiting) :
    asker ∈ verdicts.map FeedVerdict.asker ∨ asker ∈ feed.waiting := by
  cases h
  rw [List.map_map, show FeedVerdict.asker ∘ (fun asker => { asker, accepted }) = id from rfl,
    List.map_id]
  rw [Feed.waiting, List.mem_append] at hmem
  exact hmem.imp_right fun hqueued => List.mem_append_right _ hqueued

/-- Whoever waits while the rest of the channel does its part is known to the relay. -/
theorem known_of_prepares (h : Prepares c action a c₁)
    (hknown : ∀ asker, c.callback = .awaiting asker → asker ∈ c.feed.waiting) :
    ∀ asker, c₁.callback = .awaiting asker → asker ∈ c₁.feed.waiting := by
  have hdelivers : ∀ {feed : Feed} {verdicts : List FeedVerdict},
      (∀ {asker}, asker ∈ c.feed.waiting →
        asker ∈ verdicts.map FeedVerdict.asker ∨ asker ∈ feed.waiting) →
      ∀ asker, ({ c with feed }.deliverVerdicts verdicts).callback = .awaiting asker →
        asker ∈ ({ c with feed }.deliverVerdicts verdicts).feed.waiting := by
    intro feed verdicts hheard asker hwaits
    obtain ⟨hwaited, hnot⟩ := awaiting_of_deliverVerdicts hwaits
    rw [deliverVerdicts_feed]
    exact (hheard (hknown asker hwaited)).resolve_left hnot
  by_cases hmine : a.worker? = some (.requests .inbound)
  · cases h with
    | takeFromUser htake => exact hdelivers (heard_of_takeRequest htake)
    | takeEndFromUser htake =>
      rw [takeRequest_ended htake]
      exact hdelivers .inr
    | recordCommand hrecord =>
      obtain ⟨log, rfl⟩ := record?_eq hrecord
      exact hknown
    | sendToEnded | collect => exact hknown
    | replyToUser hreply => exact hdelivers (heard_of_reply hreply)
    | _ => cases hmine
  · obtain ⟨halike, -⟩ := alike_of_prepares h hmine
    have hcallback : c₁.callback = c.callback := congrArg Asking.callback halike.asking
    have hrequests : c₁.feed.requests = c.feed.requests := congrArg Asking.requests halike.asking
    rw [hcallback, Feed.waiting, hrequests, halike.owed]
    exact hknown

/-- What is left of the queues behind the owner once ended tasks have dropped theirs. -/
def drained (c : Channel) : Demux :=
  { c.owner.demux with
    data := if c.isOver (.data .outbound) then c.owner.demux.data.abandon else c.owner.demux.data
    requests :=
      if c.isOver (.requests .outbound) then c.owner.demux.requests.abandon
      else c.owner.demux.requests }

/-- The ended task that read the user's requests leaves its queue, and refuses everyone who waits. -/
theorem dropEnded_cases (c : Channel) : ∃ feed : Feed,
    feed.requests = c.feed.requests ∧ feed.owed = c.feed.owed ∧
    ((c.isOver (.requests .inbound) = true ∧
        c.dropEnded =
          { c with feed := feed.abandonRequests.1, owner := { c.owner with demux := c.drained }
            }.deliverVerdicts feed.abandonRequests.2) ∨
      (c.isOver (.requests .inbound) = false ∧
        c.dropEnded = { c with feed, owner := { c.owner with demux := c.drained } })) := by
  refine ⟨if c.isOver (.data .inbound) then c.feed.abandonData else c.feed, ?_, ?_, ?_⟩
  · split_ifs <;> rfl
  · split_ifs <;> rfl
  · cases hover : c.isOver (.requests .inbound) with
    | true =>
      refine .inl ⟨rfl, ?_⟩
      simp only [Channel.dropEnded, drained, hover, if_true]
    | false =>
      refine .inr ⟨rfl, ?_⟩
      simp only [Channel.dropEnded, drained, hover, Bool.false_eq_true, if_false]
      rfl

theorem dropEnded_owner (c : Channel) : c.dropEnded.owner = { c.owner with demux := c.drained } := by
  obtain ⟨feed, -, -, ⟨-, heq⟩ | ⟨-, heq⟩⟩ := c.dropEnded_cases
  · obtain ⟨callback, toUser, told, -, hdelivered⟩ := deliverVerdicts_eq
      { c with feed := feed.abandonRequests.1, owner := { c.owner with demux := c.drained } }
      feed.abandonRequests.2
    rw [heq, hdelivered]
  · rw [heq]

theorem isOver_dropEnded (c : Channel) (task : PipeTask) : c.dropEnded.isOver task = c.isOver task := by
  rw [isOver, dropEnded_pipe]
  rfl

/-- A task that comes to its end refuses everyone who waits. -/
theorem heeds_dropEnded (hknown : ∀ asker, c.callback = .awaiting asker → asker ∈ c.feed.waiting) :
    Heeds c.dropEnded := by
  obtain ⟨feed, hrequests, howed, ⟨hover, heq⟩ | ⟨hactive, heq⟩⟩ := c.dropEnded_cases
  · have hnot : ¬ c.dropEnded.IsWaiting := by
      rintro ⟨asker, hwaits⟩
      rw [heq] at hwaits
      obtain ⟨hwaited, hnot⟩ := awaiting_of_deliverVerdicts hwaits
      refine hnot ?_
      rw [Feed.abandonRequests, refusals_asker, hrequests, howed]
      exact hknown asker hwaited
    refine ⟨fun asker hwaits => absurd ⟨asker, hwaits⟩ hnot, fun _ => ⟨?_, hnot⟩⟩
    rw [heq, deliverVerdicts_feed]
    exact Queue.isLeft_abandon _
  · refine ⟨?_, fun hover => ?_⟩
    · rw [heq, Feed.waiting, hrequests, howed]
      exact hknown
    · rw [isOver_dropEnded] at hover
      cases hactive.symm.trans hover

/-! ### The owner -/

/-- A task that has come to its end, or to the end of data, has nothing more to get from its queue; and
the owner waits neither for a host nor for callers that are gone. -/
structure Minds (c : Channel) : Prop where
  depths : c.owner.demux.data.depth = Demux.dataDepth ∧
    c.owner.demux.requests.depth = Demux.requestDepth
  data : c.isOver (.data .outbound) = true ∨ c.pipe.copying .outbound = .halfClosing →
    c.owner.demux.data.IsLeft
  requests : c.isOver (.requests .outbound) = true → c.owner.demux.requests.IsLeft
  closed : c.owner.remoteClosed = true → c.owner.pending = []
  ended : c.owner.ended = true → c.isOver (.requests .inbound) = true

theorem Minds.of_eq (h : Minds c) (howner : c'.owner = c.owner) (hpipe : c'.pipe = c.pipe) :
    Minds c' := by
  have hover : ∀ task, c'.isOver task = c.isOver task := fun task => by rw [isOver, hpipe]; rfl
  constructor
  · rw [howner]
    exact h.depths
  · rw [hover, hpipe, howner]
    exact h.data
  · rw [hover, howner]
    exact h.requests
  · rw [howner]
    exact h.closed
  · rw [hover, howner]
    exact h.ended

/-- The owner takes a step. -/
theorem Minds.owns (h : Minds c) {step : OwnerAction} {owner : Owner} {effects : List OwnerEffect}
    (hstep : c.owner.step? step = some (owner, effects))
    (hfinish : step = .finish → c.isOver (.requests .inbound) = true)
    (howner : c'.owner = owner) (hpipe : c'.pipe = c.pipe) : Minds c' := by
  have hover : ∀ task, c'.isOver task = c.isOver task := fun task => by rw [isOver, hpipe]; rfl
  have hlater := Owner.later_of_step? hstep
  constructor
  · rw [howner]
    exact ⟨hlater.data.depth.trans h.depths.1, hlater.requests.depth.trans h.depths.2⟩
  · rw [hover, hpipe, howner]
    exact fun hends => hlater.data.left (h.data hends)
  · rw [hover, howner]
    exact fun hends => hlater.requests.left (h.requests hends)
  · rw [howner]
    exact Owner.pending_of_step? hstep h.closed
  · rw [hover, howner]
    exact fun hended => hfinish (Owner.ended_of_step? hstep hended)

theorem effects_owner (effects : List OwnerEffect) (c : Channel) :
    (effects.foldl effect c).owner = c.owner ∧ (effects.foldl effect c).pipe = c.pipe := by
  obtain ⟨answered, closeAnswered, requestsToHost, closes, heq⟩ := effects_eq effects c
  rw [heq]
  exact ⟨rfl, rfl⟩

theorem Minds.alone (h : Minds c) (hstep : Alone c action c') : Minds c' := by
  cases hstep with
  | @user input _ _ =>
    obtain ⟨callback, nextAsker, feed, link, fromUser, toUser, verdicts, heq⟩ := handles_call c input
    rw [heq]
    exact h.of_eq rfl rfl
  | handler hresume =>
    obtain ⟨callback, nextAsker, feed, link, fromUser, toUser, verdicts, rfl⟩ :=
      handles_resume? hresume
    exact h.of_eq rfl rfl
  | release hstep => exact h.owns hstep nofun (effects_owner _ _).1 (effects_owner _ _).2
  | read _ hstep => exact h.owns hstep nofun (effects_owner _ _).1 (effects_owner _ _).2
  | obey _ hstep => exact h.owns hstep nofun (effects_owner _ _).1 (effects_owner _ _).2
  | finish hgone hstep =>
    simp only [callersGone, Bool.and_eq_true] at hgone
    exact h.owns hstep (fun _ => hgone.1.1) (effects_owner _ _).1 (effects_owner _ _).2
  | _ => exact h.of_eq rfl rfl

/-- To do its part in a step of the pipe brings nobody back to the owner's queues. -/
theorem later_of_prepares (h : Prepares c action a c₁) : c.owner.demux.Later c₁.owner.demux := by
  cases h with
  | recordFromUser hrecord | recordFromHost hrecord | recordCommand hrecord =>
    obtain ⟨log, rfl⟩ := record?_eq hrecord
    exact .refl _
  | @writeToHost writing now chunk _ _ hwrite =>
    obtain ⟨dataToHost, heq⟩ := c.writeToHost_eq chunk writing
    rw [hwrite] at heq
    cases heq
    exact .refl _
  | @halfCloseHost writing now _ _ hhalf =>
    obtain ⟨halfCloses, heq⟩ := c.halfCloseHost_eq writing
    rw [hhalf] at heq
    cases heq
    exact .refl _
  | writeToUser hpost | halfCloseUser hpost | closeUser hpost =>
    obtain ⟨outbox, rfl⟩ := post?_eq hpost
    exact .refl _
  | sendToUser hsend =>
    obtain ⟨outbox, rfl⟩ := requestToUser?_eq hsend
    exact .refl _
  | readFromHost htake | readEndFromHost htake =>
    cases (congrArg Prod.fst htake).symm
    exact ⟨Queue.later_take _, .refl _⟩
  | takeFromHost htake | takeEndFromHost htake =>
    cases (congrArg Prod.fst htake).symm
    exact ⟨.refl _, Queue.later_take _⟩
  | @takeFromUser _ _ feed _ verdicts _ | @takeEndFromUser _ _ feed verdicts _
  | @replyToUser _ _ _ feed verdicts _ =>
    obtain ⟨callback, toUser, told, -, heq⟩ := deliverVerdicts_eq { c with feed } verdicts
    rw [heq]
    exact .refl _
  | _ => exact .refl _

theorem later_drained (c : Channel) : c.owner.demux.Later c.drained := by
  constructor
  · rw [drained]
    dsimp only
    split_ifs
    · exact Queue.later_abandon _
    · exact .refl _
  · rw [drained]
    dsimp only
    split_ifs
    · exact Queue.later_abandon _
    · exact .refl _

/-- A forwarding task that has come to its end does nothing. -/
theorem isOver_requests_of_step (hstep : c.pipe.step? a = some p)
    (h : c.isOver (.requests .inbound) = true) :
    isOver { c with pipe := p } (.requests .inbound) = true := by
  rw [isOver_requests] at h ⊢
  by_cases hmine : a.worker? = some (.requests .inbound)
  · cases Pipe.step_of_step? hstep with
    | took hstate | tookEnd hstate | recordedCommand hstate | sent hstate | sendError hstate
    | replied hstate | replyError hstate =>
      cases hmine
      rw [hstate] at h
      exact h.elim
    | _ => cases hmine
  · rcases forwarding_step hstep hmine with hsame | hgone
    · rw [show p.forwarding .inbound = _ from hsame]
      exact h
    · rw [hgone]
      trivial

/-- The task that copies to the user comes to the end of data only where nobody adds any. -/
theorem isLeft_of_readEnd (h : Prepares c action (.read .outbound (.ok none)) c₁) :
    c.owner.demux.data.IsLeft := by
  cases h with
  | readEndFromHost htake => exact (Queue.take_ended htake).2.2

theorem Minds.along (h : Minds c) (hprepares : Prepares c action a c₁)
    (hstep : c₁.pipe.step? a = some p) : Minds { c₁ with pipe := p }.dropEnded := by
  have haside := aside_of_prepares hprepares
  obtain ⟨demux, howner⟩ := haside.owner
  have hlater : c.owner.demux.Later (drained { c₁ with pipe := p }) :=
    (later_of_prepares hprepares).trans (later_drained { c₁ with pipe := p })
  have hstep' : c.pipe.step? a = some p := haside.pipe ▸ hstep
  refine ⟨?_, fun hends => ?_, fun hends => ?_, fun hclosed => ?_, fun hended => ?_⟩
  · rw [dropEnded_owner]
    exact ⟨hlater.data.depth.trans h.depths.1, hlater.requests.depth.trans h.depths.2⟩
  · rw [isOver_dropEnded, dropEnded_pipe] at hends
    rw [dropEnded_owner]
    rcases hends with hover | hhalf
    · simp only [drained, hover, if_true]
      exact Queue.isLeft_abandon _
    · refine hlater.data.left ?_
      rcases Pipe.halfClosing_of_step (Pipe.step_of_step? hstep') hhalf with hold | rfl
      · exact h.data (.inr hold)
      · exact isLeft_of_readEnd hprepares
  · rw [isOver_dropEnded] at hends
    rw [dropEnded_owner]
    simp only [drained, hends, if_true]
    exact Queue.isLeft_abandon _
  · rw [dropEnded_owner] at hclosed ⊢
    rw [show Channel.owner { c₁ with pipe := p } = _ from howner] at hclosed ⊢
    exact h.closed hclosed
  · rw [dropEnded_owner, show Channel.owner { c₁ with pipe := p } = _ from howner] at hended
    rw [isOver_dropEnded]
    exact isOver_requests_of_step (c := { c₁ with pipe := c.pipe }) hstep' (h.ended hended)

/-! ### Steps and runs -/

/-- Nobody who waits is forgotten. -/
structure Tended (c : Channel) : Prop where
  heeds : Heeds c
  minds : Minds c
  records : c.pipe.RecordsCommands

theorem pipe_of_alone (h : Alone c action c') : c'.pipe = c.pipe := by
  cases h with
  | @user input _ _ =>
    obtain ⟨callback, nextAsker, feed, link, fromUser, toUser, verdicts, heq⟩ := handles_call c input
    rw [heq]
  | handler hresume =>
    obtain ⟨callback, nextAsker, feed, link, fromUser, toUser, verdicts, rfl⟩ :=
      handles_resume? hresume
    rfl
  | release | read | obey | finish => exact (effects_owner _ _).2
  | _ => rfl

theorem Tended.step (h : Tended c) (hstep : c.step? action = some c') : Tended c' := by
  rcases step_of_step? hstep with halone | ⟨a, c₁, p, hprepares, hpipe, rfl⟩
  · exact ⟨h.heeds.alone halone, h.minds.alone halone, pipe_of_alone halone ▸ h.records⟩
  · have hknown := known_of_prepares hprepares h.heeds.known
    refine ⟨heeds_dropEnded hknown, h.minds.along hprepares hpipe, ?_⟩
    rw [dropEnded_pipe]
    rw [(aside_of_prepares hprepares).pipe] at hpipe
    exact h.records.step (Pipe.step_of_step? hpipe)

theorem tended_start (streams : Recording.SessionStreams) : Tended (start streams) where
  heeds := ⟨nofun, nofun⟩
  minds := ⟨⟨rfl, rfl⟩, fun hends => (by rcases hends with hno | hno <;> cases hno), nofun, nofun, nofun⟩
  records := nofun

theorem Tended.run {actions : List ChannelAction} :
    ∀ {c : Channel}, Tended c → c.run? actions = some c' → Tended c' := by
  induction actions with
  | nil =>
    intro c h hrun
    cases hrun
    exact h
  | cons action more ih =>
    intro c h hrun
    obtain ⟨c₁, hstep, hrest⟩ := Option.bind_eq_some_iff.mp hrun
    exact ih (h.step hstep) hrest

theorem tended_of_reachable {streams : Recording.SessionStreams} (h : Reachable streams c) :
    Tended c := by
  obtain ⟨actions, hrun⟩ := h
  exact (tended_start streams).run hrun

end Channel

end Gatehouse.Relay
