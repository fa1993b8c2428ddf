import Gatehouse.Proofs.Relay.ChannelStep
import Gatehouse.Proofs.Relay.Closing
import Gatehouse.Proofs.Relay.VerdictWay

/-!
# Every verdict answers its own request

`verdicts_are_fair`: requests reach the host in the order in which the user has sent them, each at most
once. Every asker is told something at most once, and what it is told is the host's answer to its own
request, or a refusal when the relay or the channel has ended and no answer is known.

Proof. Every step keeps `Channel.Attends`. The requests that the forwarding task has taken are the first
that the user has sent, and the handler waits for none of the others (`Asking.Holds`). Between the task,
the owner and the host there is at most the request that was taken last, and the host's answers are
counted off against the requests on the wire (`Line.Holds`). The reply is owed to whoever asked for the
request that was taken last (`Channel.Owes`). So the answer that the task passes back is that to the
request of the asker who hears it; whoever else is told something is refused because a queue has ended.
-/

namespace Gatehouse.Relay

namespace Channel

variable {c c' c₁ : Channel} {action : ChannelAction} {answers answers' : Answers}
  {taken : List Asked}

/-! ### What a run says of the host's answers -/

/-- What happens in a step that bears on the host's answers. -/
def exchanged (c : Channel) (action : ChannelAction) (c' : Channel) : List WireEvent :=
  match action with
  | .read => (c.inbox.head?.bind HostMessage.answer?).toList.map .answered
  | _ =>
    ((c'.passed.requestsToHost.drop c.passed.requestsToHost.length).filter Incoming.wantReply).map
      fun _ => .asked

/-- What happens in some steps that bears on the host's answers. -/
def wireEvents (c : Channel) : List ChannelAction → List WireEvent
  | [] => []
  | action :: more =>
    match c.step? action with
    | some c' => c.exchanged action c' ++ c'.wireEvents more
    | none => []

/-- The answers that the host has given in some steps, in the order of the requests they belong to. -/
def answersGiven (c : Channel) (actions : List ChannelAction) : List Bool :=
  ((c.wireEvents actions).foldl Answers.next {}).given

/-- What an asker is told is fair as things stand. -/
def Fair (c : Channel) (given : List Bool) : AskId × Option Bool → Prop :=
  IsFair (requestsAsked c.passed.fromUser) given (c.isOver (.requests .inbound) = true)
    (UserInput.close ∈ c.passed.fromUser ∨ c.owner.isClosed = true)

/-! ### What holds of requests under way -/

def asking (c : Channel) : Asking where
  callback := c.callback
  nextAsker := c.nextAsker
  link := c.link
  requests := c.feed.requests
  fromUser := c.passed.fromUser
  verdicts := c.passed.verdicts

def line (c : Channel) : Line where
  call := c.forwardCall
  nextCall := c.nextCall
  commands := c.commands
  answered := c.answered
  pending := c.owner.pending
  remoteClosed := c.owner.remoteClosed
  localClosed := c.owner.localClosed
  ended := c.owner.ended
  wire := c.passed.requestsToHost

/-- Whom the relay owes a reply is who asked for the request that was taken last. -/
def Owes (owed : Option AskId) (taken : List Asked) : Forwarding → Prop
  | .waiting => owed = none
  | .recording _ | .sending _ | .replying _ =>
    ∃ before item, taken = before ++ [item] ∧ item.asker = owed
  | .reporting _ | .gone => True

/-- The requests that the forwarding task has taken, and the answers so far, are those of a channel in
which verdicts belong to their requests. -/
structure Attends (c : Channel) (answers : Answers) (taken : List Asked) : Prop where
  asking : c.asking.Holds taken
  line : c.line.Holds (c.pipe.forwarding .inbound) answers taken
  owed : Owes c.feed.owed taken (c.pipe.forwarding .inbound)
  unread : c.feed.requests.read = false → (c.pipe.forwarding .inbound).IsOver

theorem owes_of_over {owed : Option AskId} {state : Forwarding} (hover : state.IsOver) :
    Owes owed taken state := by
  cases state with
  | reporting | gone => trivial
  | _ => exact hover.elim

theorem isOver_requests : c.isOver (.requests .inbound) = true ↔ (c.pipe.forwarding .inbound).IsOver := by
  simp only [isOver, Pipe.isGone, Pipe.report?]
  cases c.pipe.forwarding .inbound <;> simp [Forwarding.IsOver]

/-- What is told in a step. -/
def Tells (c c' : Channel) (fair : AskId × Option Bool → Prop) : Prop :=
  ∃ told, c'.passed.verdicts = c.passed.verdicts ++ told ∧ ∀ entry ∈ told, fair entry

theorem Tells.none {fair : AskId × Option Bool → Prop}
    (h : c'.passed.verdicts = c.passed.verdicts) : Tells c c' fair :=
  ⟨[], h.trans (List.append_nil _).symm, nofun⟩

theorem Tells.one {fair : AskId × Option Bool → Prop} {entry : AskId × Option Bool}
    (h : c'.passed.verdicts = c.passed.verdicts ++ [entry]) (hfair : fair entry) : Tells c c' fair :=
  ⟨[entry], h, fun _ hmem => List.mem_singleton.mp hmem ▸ hfair⟩

/-- A task that is at work reads the user's requests. -/
theorem Attends.reads (h : Attends c answers taken) {state next : Forwarding}
    (hstate : c.pipe.forwarding .inbound = state) (hbusy : ¬ state.IsOver)
    (hread : c.feed.requests.read = false) : next.IsOver :=
  absurd (hstate ▸ h.unread hread) hbusy

/-! ### Verdicts -/

/-- Nobody has been told what is not known yet. -/
theorem Attends.unknown (h : Attends c answers taken) {asker : AskId}
    (hbehind : taken.length ≤ asker) :
    verdictOn (requestsAsked c.passed.fromUser) answers.given asker = none := by
  obtain ⟨front, hfront, rfl⟩ := asked_of_prefix h.asking.taken_prefix
  rw [asked_length] at hbehind
  have hle : front <+: (requestsAsked c.passed.fromUser).take asker :=
    List.prefix_take_iff.mpr ⟨hfront, hbehind⟩
  refine List.getElem?_eq_none ?_
  calc answers.given.length
      ≤ turnOf (asked front) := h.line.given_le
    _ = front.countP Request.wantsReply := turnOf_asked front
    _ ≤ ((requestsAsked c.passed.fromUser).take asker).countP Request.wantsReply := hle.countP_le

/-- An asker that waits is told something. -/
theorem Attends.settle (h : Attends c answers taken) {asker : AskId}
    (hasker : c.callback.asker? = some asker)
    (hunasked : c.feed.requests.fed = true → c.feed.requests.read = true → c.callback.unasked = [])
    (told : Option Bool) : Attends (c.settle asker told) answers taken :=
  ⟨h.asking.settle (h.asking.asker_lt hasker) (h.asking.unanswered asker hasker) hunasked told,
    h.line, h.owed, h.unread⟩

/-- Whoever waits for a verdict is refused when the relay is over. -/
theorem Attends.fair_of_over (h : Attends c answers taken) {asker : AskId}
    (hcallback : c.callback = .awaiting asker) (hover : c.isOver (.requests .inbound) = true) :
    c.Fair answers.given (asker, some false) := by
  obtain ⟨request, hrequest, hwants⟩ := h.asking.awaiting asker hcallback
  refine ⟨request, hrequest, ?_⟩
  rw [if_pos hwants]
  exact ⟨false, rfl, .inr ⟨rfl, .inl hover⟩⟩

/-- Nothing has changed for requests, except perhaps what became of the tasks. -/
structure Alike (c c' : Channel) : Prop where
  asking : c'.asking = c.asking
  line : c'.line = c.line
  owed : c'.feed.owed = c.feed.owed

theorem Alike.verdicts (h : Alike c c') : c'.passed.verdicts = c.passed.verdicts :=
  congrArg Asking.verdicts h.asking

/-- Something happens on the owner's part of the way. -/
theorem Attends.of_line (h : Attends c answers taken) (hasking : c'.asking = c.asking)
    (howed : c'.feed.owed = c.feed.owed)
    (hpipe : c'.pipe.forwarding .inbound = c.pipe.forwarding .inbound)
    (hline : c'.line.Holds (c.pipe.forwarding .inbound) answers' taken) :
    Attends c' answers' taken := by
  refine ⟨hasking ▸ h.asking, hpipe ▸ hline, ?_, fun hread => ?_⟩
  · rw [hpipe, howed]
    exact h.owed
  · rw [hpipe]
    refine h.unread ?_
    rw [← hread]
    exact congrArg (·.requests.read) hasking.symm

theorem Attends.alike (h : Attends c answers taken) (halike : Alike c c')
    (hpipe : c'.pipe.forwarding .inbound = c.pipe.forwarding .inbound) : Attends c' answers taken :=
  h.of_line halike.asking halike.owed hpipe (halike.line ▸ h.line)

/-- What the forwarding task held is dropped, and whoever waits is refused. -/
theorem Attends.refuseAll (h : Attends c answers taken)
    (hover : c.isOver (.requests .inbound) = true) {feed : Feed} {demux : Demux}
    (hrequests : feed.requests = c.feed.requests.abandon) {verdicts : List FeedVerdict}
    (hverdicts : ∀ v ∈ verdicts, v.accepted = false) :
    let c' := { c with feed, owner := { c.owner with demux } }.deliverVerdicts verdicts
    Attends c' answers taken ∧ Tells c c' (c'.Fair answers.given) := by
  intro c'
  have hstate := isOver_requests.mp hover
  have hdropped : Attends { c with feed, owner := { c.owner with demux } } answers taken := by
    refine ⟨?_, h.line, owes_of_over hstate, fun _ => hstate⟩
    have habandon := h.asking.abandon
    rw [show Channel.asking _ = { c.asking with requests := c.feed.requests.abandon } by
      simp only [Channel.asking, hrequests]]
    exact habandon
  rcases deliverVerdicts_cases { c with feed, owner := { c.owner with demux } } verdicts with
    hsame | ⟨v, hmem, hcallback, hsettle⟩
  · rw [show c' = _ from hsame]
    exact ⟨hdropped, .none rfl⟩
  · rw [show c' = _ from hsettle, hverdicts v hmem]
    refine ⟨hdropped.settle (by rw [hcallback]; rfl) (fun _ _ => by rw [hcallback]; rfl) _, ?_⟩
    exact .one rfl (hdropped.fair_of_over hcallback hover)

/-- Dropping what ended tasks held. -/
theorem Attends.dropEnded (h : Attends c answers taken) :
    Attends c.dropEnded answers taken ∧ Tells c c.dropEnded (c.dropEnded.Fair answers.given) := by
  unfold Channel.dropEnded
  dsimp only
  have hfeed : ∀ feed : Feed,
      feed = (if c.isOver (.data .inbound) then c.feed.abandonData else c.feed) →
      feed.requests = c.feed.requests ∧ feed.owed = c.feed.owed := by
    rintro feed rfl
    split_ifs <;> exact ⟨rfl, rfl⟩
  generalize hdata : (if c.isOver (.data .inbound) then c.feed.abandonData else c.feed) = feed
  obtain ⟨hrequests, howed⟩ := hfeed feed hdata.symm
  by_cases hover : c.isOver (.requests .inbound) = true
  · rw [if_pos hover]
    refine h.refuseAll hover (congrArg Queue.abandon hrequests) fun v hmem => ?_
    obtain ⟨asker, -, rfl⟩ := List.mem_map.mp hmem
    rfl
  · rw [if_neg hover]
    refine ⟨h.alike ⟨?_, rfl, howed⟩ rfl, .none rfl⟩
    simp only [Channel.asking, deliverVerdicts, List.foldl_nil, hrequests]

/-! ### The handler -/

/-- The queues with one more request. -/
def withRequest (f : Feed) (item : Asked) : Feed :=
  { f with requests := { f.requests with items := f.requests.items ++ [item] } }

/-- What becomes of a request that the handler passes on. -/
theorem ask_cases (f : Feed) (asker : AskId) (request : Request) :
    ((f.requests.fed = false ∨ f.requests.read = false) ∧
      f.ask asker request = (f, .settled (if request.wantsReply then some false else none))) ∨
    (f.requests.fed = true ∧ f.requests.read = true ∧
      (f.ask asker request = (f, .full) ∨
        f.ask asker request = (withRequest f (.of asker request),
          if request.wantsReply then .asked else .settled none))) := by
  unfold Feed.ask
  dsimp only
  by_cases hends : (!f.requests.fed || !f.requests.read) = true
  · rw [if_pos hends]
    rw [Bool.or_eq_true, Bool.not_eq_true', Bool.not_eq_true'] at hends
    exact .inl ⟨hends, rfl⟩
  · rw [if_neg hends]
    simp only [Bool.or_eq_true, Bool.not_eq_true', not_or, Bool.not_eq_false] at hends
    obtain ⟨hfed, hread⟩ := hends
    refine .inr ⟨hfed, hread, ?_⟩
    have hitem : Asked.mk (.ofRequest request)
        (if (Incoming.ofRequest request).wantReply then some asker else none) = .of asker request := rfl
    rw [hitem]
    rcases f.requests.push_cases (.of asker request) with
      ⟨hno, -⟩ | ⟨-, hno, -⟩ | ⟨-, -, hpush | hpush⟩
    · exact absurd (hfed.symm.trans hno) nofun
    · exact absurd (hread.symm.trans hno) nofun
    · rw [hpush]
      exact .inr rfl
    · rw [hpush]
      exact .inl rfl

/-- The handler passes on a request, or waits for room, or is refused. -/
theorem Attends.ask (h : Attends c answers taken) {asker : AskId} {request : Request}
    (hcallback : c.callback = .asking asker request) :
    Attends (c.ask asker request) answers taken ∧
      Tells c (c.ask asker request) ((c.ask asker request).Fair answers.given) := by
  have hasker : c.callback.asker? = some asker := by rw [hcallback]; rfl
  have hrequest := h.asking.asking asker request hcallback
  have hlink : c.link ≠ .gone := fun hgone => absurd (hcallback.symm.trans (h.asking.gone hgone)) nofun
  rcases ask_cases c.feed asker request with ⟨hends, hask⟩ | ⟨hfed, hread, hask | hask⟩
  · -- Nothing can be queued any more: the user has closed the channel, or the relay is over.
    have heq : c.ask asker request =
        c.settle asker (if request.wantsReply then some false else none) := by
      rw [Channel.ask, hask]
    rw [heq]
    refine ⟨h.settle hasker (fun hfed hread => ?_) _, .one rfl ⟨request, hrequest, ?_⟩⟩
    · rcases hends with hno | hno
      · exact absurd (hfed.symm.trans hno) nofun
      · exact absurd (hread.symm.trans hno) nofun
    · split_ifs with hwants
      · refine ⟨false, rfl, .inr ⟨rfl, ?_⟩⟩
        rcases hends with hfed | hread
        · -- Its turn has not come, so the host cannot have answered it.
          have hbehind := h.asking.behind asker request hcallback
          rw [List.length_append] at hbehind
          refine .inr ⟨.inl ((h.asking.closed hfed).resolve_right hlink), ?_⟩
          exact h.unknown (Nat.le_trans (Nat.le_add_right _ _) hbehind)
        · exact .inl (isOver_requests.mpr (h.unread hread))
      · rfl
  · have heq : c.ask asker request = { c with callback := .asking asker request } := by
      rw [Channel.ask, hask]
    rw [heq]
    exact ⟨h.alike ⟨by simp only [Channel.asking, hcallback], rfl, rfl⟩ rfl, .none rfl⟩
  · have hpushed : ∀ {callback : Callback},
        callback = .idle ∨ callback = .awaiting asker ∧ request.wantsReply = true →
        Asking.Holds { c.asking with
          callback
          requests := (withRequest c.feed (.of asker request)).requests } taken :=
      fun hnext => h.asking.push hcallback hfed hread hnext
    by_cases hwants : request.wantsReply = true
    · have heq : c.ask asker request = { c with
          callback := .awaiting asker, feed := withRequest c.feed (.of asker request) } := by
        rw [Channel.ask, hask, if_pos hwants]
      rw [heq]
      exact ⟨⟨hpushed (.inr ⟨rfl, hwants⟩), h.line, h.owed, h.unread⟩, .none rfl⟩
    · have heq : c.ask asker request =
          { c with feed := withRequest c.feed (.of asker request) }.settle asker none := by
        rw [Channel.ask, hask, if_neg hwants]
      rw [heq]
      refine ⟨⟨?_, h.line, h.owed, h.unread⟩, .one rfl ⟨request, hrequest, ?_⟩⟩
      · exact (hpushed (.inl rfl)).settle (h.asking.asker_lt hasker)
          (h.asking.unanswered asker hasker) (fun _ _ => rfl) none
      · rw [if_neg hwants]

/-- The handler offers a block of data, or waits for room. -/
theorem Attends.offer (h : Attends c answers taken) (hunasked : c.callback.unasked = [])
    (hlink : c.link ≠ .gone) (chunk : Chunk) : Attends (c.offer chunk) answers taken := by
  have hturn : ∀ {callback : Callback} {feed : Feed}, callback.unasked = [] →
      callback.asker? = none → feed.requests = c.feed.requests → feed.owed = c.feed.owed →
      Attends { c with callback, feed } answers taken := by
    intro callback feed hnew hasker hrequests howed
    refine ⟨?_, h.line, howed ▸ h.owed, fun hread => h.unread (hrequests ▸ hread)⟩
    have hasking := h.asking.turn hunasked hlink hnew hasker
    rw [show Channel.asking _ = { c.asking with callback } by simp only [Channel.asking, hrequests]]
    exact hasking
  have hoffer : (c.feed.offer chunk).1.requests = c.feed.requests ∧
      (c.feed.offer chunk).1.owed = c.feed.owed := ⟨rfl, rfl⟩
  unfold Channel.offer
  split
  · next feed heq =>
    rw [heq] at hoffer
    exact hturn rfl rfl hoffer.1 hoffer.2
  · exact hturn rfl rfl rfl rfl

/-- What the handler was doing makes no difference to a request that it passes on. -/
theorem ask_callback (c : Channel) (callback : Callback) (asker : AskId) (request : Request) :
    { c with callback }.ask asker request = c.ask asker request := by
  unfold ask
  dsimp only
  split <;> rfl

/-- The handler is called. -/
theorem Attends.call (h : Attends c answers taken) (hidle : c.callback = .idle)
    (hlink : c.link ≠ .gone) (input : UserInput) :
    Attends (c.call input) answers taken ∧
      Tells c (c.call input) ((c.call input).Fair answers.given) := by
  have hinput : input.request? = none →
      Attends { c with passed := { c.passed with fromUser := c.passed.fromUser ++ [input] } } answers
        taken := fun hrequest => ⟨h.asking.input hrequest, h.line, h.owed, h.unread⟩
  cases input with
  | data chunk =>
    have hunasked : c.callback.unasked = [] := by rw [hidle]; rfl
    refine ⟨(hinput rfl).offer hunasked hlink chunk, .none ?_⟩
    simp only [Channel.call, Channel.offer]
    split <;> rfl
  | eof => exact ⟨⟨(hinput rfl).asking, h.line, h.owed, h.unread⟩, .none rfl⟩
  | request request =>
    -- First the handler holds the request, and then it passes it on as if it had waited for room.
    have hasking := h.asking.call hidle hlink request
    have hcalled : Attends { c with
        callback := .asking c.nextAsker request
        nextAsker := c.nextAsker + 1
        passed := { c.passed with fromUser := c.passed.fromUser ++ [.request request] } } answers
        taken := ⟨hasking, h.line, h.owed, h.unread⟩
    obtain ⟨hattends, htells⟩ := hcalled.ask rfl
    rw [ask_callback { c with
      nextAsker := c.nextAsker + 1
      passed := { c.passed with fromUser := c.passed.fromUser ++ [.request request] } }]
      at hattends htells
    exact ⟨hattends, htells⟩
  | close =>
    have hclose : UserInput.close ∈ c.passed.fromUser ++ [.close] :=
      List.mem_append_right _ List.mem_cons_self
    exact ⟨⟨(hinput rfl).asking.close hclose nofun, h.line, h.owed, h.unread⟩, .none rfl⟩

/-- The handler goes on where it waited for room. -/
theorem Attends.resume (h : Attends c answers taken) (hresume : c.resume? = some c') :
    Attends c' answers taken ∧ Tells c c' (c'.Fair answers.given) := by
  unfold resume? at hresume
  split at hresume
  · next chunk hcallback =>
    split_ifs at hresume
    cases hresume
    have hlink : c.link ≠ .gone := fun hgone =>
      absurd (hcallback.symm.trans (h.asking.gone hgone)) nofun
    refine ⟨h.offer (by rw [hcallback]; rfl) hlink chunk, .none ?_⟩
    unfold Channel.offer
    split <;> rfl
  · next asker request hcallback =>
    split_ifs at hresume
    cases hresume
    exact h.ask hcallback
  · cases hresume
  · cases hresume

theorem line_ask (c : Channel) (asker : AskId) (request : Request) :
    (c.ask asker request).line = c.line := by
  unfold ask
  split <;> rfl

theorem line_offer (c : Channel) (chunk : Chunk) : (c.offer chunk).line = c.line := by
  unfold offer
  split <;> rfl

theorem line_call (c : Channel) (input : UserInput) : (c.call input).line = c.line := by
  cases input with
  | data chunk => exact line_offer _ chunk
  | request request => exact line_ask _ _ request
  | eof | close => rfl

theorem line_resume (h : c.resume? = some c') : c'.line = c.line := by
  unfold resume? at h
  split at h
  · split_ifs at h
    cases h
    exact line_offer c _
  · split_ifs at h
    cases h
    exact line_ask c _ _
  · cases h
  · cases h

/-! ### The owner -/

theorem exchanged_of_ne (hread : action ≠ .read) :
    c.exchanged action c' =
      ((c'.passed.requestsToHost.drop c.passed.requestsToHost.length).filter
        Incoming.wantReply).map fun _ => .asked := by
  unfold exchanged
  split
  · exact absurd rfl hread
  · rfl

theorem exchanged_read {message : HostMessage} {inbox : List HostMessage}
    (hinbox : c.inbox = message :: inbox) :
    c.exchanged .read c' = message.answer?.toList.map .answered := by
  rw [exchanged, hinbox]
  rfl

theorem exchanged_of_eq (hread : action ≠ .read)
    (hwire : c'.passed.requestsToHost = c.passed.requestsToHost) : c.exchanged action c' = [] := by
  rw [exchanged_of_ne hread, hwire, List.drop_length]
  rfl

theorem effects_answered (calls : List CallId) (result : Except RelayError Bool) (c : Channel) :
    (calls.map fun call => OwnerEffect.answered call result).foldl effect c =
      { c with answered := c.answered ++ calls.map fun call => (call, result) } := by
  induction calls generalizing c with
  | nil => simp
  | cons call calls ih =>
    rw [List.map_cons, List.foldl_cons, ih]
    simp [effect]

/-- The owner reads what the host has sent. -/
theorem Attends.read (h : Attends c answers taken) {message : HostMessage} {inbox : List HostMessage}
    {owner : Owner} {effects : List OwnerEffect} (hinbox : c.inbox = message :: inbox)
    (hstep : c.owner.step? (.message message) = some (owner, effects)) :
    let c' := effects.foldl effect { c with inbox, owner }
    Attends c' ((c.exchanged .read c').foldl Answers.next answers) taken ∧
      c'.passed.verdicts = c.passed.verdicts := by
  intro c'
  rw [exchanged_read hinbox]
  obtain ⟨hended, hopen, -, hreceive⟩ := Owner.step?_message hstep
  have hverdict : ∀ accepted, c.owner.verdict accepted = (owner, effects) →
      Attends c' (answers.next (.answered accepted)) taken ∧
        c'.passed.verdicts = c.passed.verdicts := by
    intro accepted hverdict
    unfold Owner.verdict at hverdict
    split at hverdict
    · next hpending =>
      cases hverdict
      exact ⟨h.of_line rfl rfl rfl (h.line.ignores hopen hended hpending accepted), rfl⟩
    · next call rest hpending =>
      cases hverdict
      exact ⟨h.of_line rfl rfl rfl (h.line.hears hopen hended hpending accepted), rfl⟩
  cases message with
  | success => exact hverdict true hreceive
  | failure => exact hverdict false hreceive
  | close =>
    cases hreceive
    have heq : c' = _ := effects_answered _ _ _
    rw [heq]
    exact ⟨h.of_line rfl rfl rfl h.line.hearsClose, rfl⟩
  | data | eof | exitStatus | exitSignal | other =>
    cases hreceive
    exact ⟨h.alike ⟨rfl, rfl, rfl⟩ rfl, rfl⟩

/-- The owner closes the channel. -/
theorem Attends.obeyClose (h : Attends c answers taken) {call : CallId} {commands : List Command}
    {sending : Except String Unit} {owner : Owner} {effects : List OwnerEffect}
    (hcommands : c.commands = .close call :: commands)
    (hobey : c.owner.obey sending (.close call) = (owner, effects)) :
    let c' := effects.foldl effect { c with commands, owner }
    Attends c' answers taken ∧ c'.passed.requestsToHost = c.passed.requestsToHost ∧
      c'.passed.verdicts = c.passed.verdicts := by
  intro c'
  have hcalls : requestCalls commands = requestCalls c.commands := by
    rw [hcommands, requestCalls_cons]
    rfl
  simp only [Owner.obey] at hobey
  split_ifs at hobey
  · cases hobey
    have hquiet : Line.Quiet c.line { c.line with commands } := ⟨rfl, hcalls, rfl, rfl, rfl, id⟩
    exact ⟨h.of_line rfl rfl rfl (h.line.quiet hquiet (Nat.le_refl _) id id), rfl, rfl⟩
  · cases hobey
    have hquiet : Line.Quiet c.line { c.line with commands, localClosed := true } :=
      ⟨rfl, hcalls, rfl, rfl, rfl, fun _ => Bool.or_true _⟩
    exact ⟨h.of_line rfl rfl rfl (h.line.quiet hquiet (Nat.le_refl _) id id), rfl, rfl⟩

/-- The owner puts a request on the wire, or answers at once. -/
theorem Attends.obeyRequest (h : Attends c answers taken) {call : CallId} {request : Request}
    {wantReply : Bool} {commands : List Command} {sending : Except String Unit} {owner : Owner}
    {effects : List OwnerEffect} (hcommands : c.commands = .request call request wantReply :: commands)
    (hended : c.owner.ended = false)
    (hobey : c.owner.obey sending (.request call request wantReply) = (owner, effects)) :
    let c' := effects.foldl effect { c with commands, owner }
    Attends c' ((c.exchanged (.obey sending) c').foldl Answers.next answers) taken ∧
      c'.passed.verdicts = c.passed.verdicts := by
  intro c'
  have hread : ChannelAction.obey sending ≠ .read := by
    intro heq
    cases heq
  rw [exchanged_of_ne hread]
  have hcalls : requestCalls c.line.commands =
      (call, { request, wantReply }) :: requestCalls commands := by
    rw [show c.line.commands = _ from hcommands, requestCalls_cons]
    rfl
  have hplain : wantReply = request.wantsReply := by
    obtain ⟨before, item, htaken, hitem, -⟩ := h.line.next_request hcalls
    have hmem : item ∈ taken := htaken ▸ List.mem_append_right _ List.mem_cons_self
    have hplain : item.IsPlain := h.line.plain item hmem
    rw [Asked.IsPlain, hitem] at hplain
    exact hplain
  have hquiet : ∀ {answered : CallId × Except RelayError Bool},
      c' = { c with commands, answered := c.answered ++ [answered] } →
      c'.passed.requestsToHost.drop c.passed.requestsToHost.length = [] := by
    rintro answered heq
    rw [heq, List.drop_length]
  have hsent : ∀ wire : List Incoming, c'.passed.requestsToHost = c.passed.requestsToHost ++ wire →
      c'.passed.requestsToHost.drop c.passed.requestsToHost.length = wire := by
    rintro wire heq
    rw [heq, List.drop_left]
  simp only [Owner.obey] at hobey
  split at hobey
  · next hrefuse =>
    cases hobey
    rw [hquiet rfl]
    rw [Bool.or_eq_true, Bool.not_eq_true'] at hrefuse
    refine ⟨h.of_line rfl rfl rfl (h.line.refuses hcalls fun accepted hok => ?_), rfl⟩
    cases hok
    exact ⟨rfl, hrefuse⟩
  · next hrefuse =>
    simp only [Bool.or_eq_true, Bool.not_eq_true', not_or, Bool.not_eq_false, Bool.not_eq_true]
      at hrefuse
    obtain ⟨hopen, hserver⟩ := hrefuse
    rcases sending with reason | ⟨⟩
    · cases hobey
      rw [hquiet rfl]
      refine ⟨h.of_line rfl rfl rfl (h.line.refuses hcalls fun accepted hok => ?_), rfl⟩
      cases hok
    · dsimp only at hobey
      split at hobey
      · next hwant =>
        cases hobey
        rw [Bool.and_eq_true] at hwant
        rw [hsent [{ request, wantReply }] rfl, List.filter_cons_of_pos hwant.1]
        exact ⟨h.of_line rfl rfl rfl (h.line.sendsAsking hcalls hopen hended hserver hwant.1), rfl⟩
      · next hwant =>
        cases hobey
        have hnot : wantReply = false := by
          rw [← hplain, Bool.and_self] at hwant
          exact Bool.eq_false_iff.mpr hwant
        rw [hsent [{ request, wantReply }] rfl, List.filter_cons_of_neg (Bool.eq_false_iff.mp hnot)]
        exact ⟨h.of_line rfl rfl rfl (h.line.sends hcalls hopen hserver hnot), rfl⟩

/-- The owner ends after the forwarding task. -/
theorem Attends.finish (h : Attends c answers taken) {owner : Owner} {effects : List OwnerEffect}
    (hgone : c.callersGone = true) (hstep : c.owner.step? .finish = some (owner, effects)) :
    let c' := effects.foldl effect { c with owner }
    Attends c' answers taken ∧ c'.passed.requestsToHost = c.passed.requestsToHost ∧
      c'.passed.verdicts = c.passed.verdicts := by
  intro c'
  obtain ⟨-, rfl, rfl⟩ := Owner.step?_finish hstep
  simp only [callersGone, Bool.and_eq_true] at hgone
  have hline := h.line.finishes (isOver_requests.mp hgone.1.1)
  have heq : c' = _ := List.foldl_append
  rw [heq, effects_answered]
  split_ifs
  · exact ⟨h.of_line rfl rfl rfl hline, rfl, rfl⟩
  · exact ⟨h.of_line rfl rfl rfl hline, rfl, rfl⟩

/-- A step in which the pipe takes none. -/
theorem Attends.alone (h : Attends c answers taken) (hstep : Alone c action c') :
    Attends c' ((c.exchanged action c').foldl Answers.next answers) taken ∧
      Tells c c' (c'.Fair answers.given) := by
  have hquiet : action ≠ .read → c'.line.wire = c.line.wire → Attends c' answers taken →
      Attends c' ((c.exchanged action c').foldl Answers.next answers) taken := by
    intro hread hwire hattends
    rw [exchanged_of_eq hread hwire]
    exact hattends
  cases hstep with
  | @user input hidle hlink =>
    obtain ⟨hattends, htells⟩ := h.call hidle hlink input
    exact ⟨hquiet nofun (congrArg Line.wire (line_call c input)) hattends, htells⟩
  | handler hresume =>
    obtain ⟨hattends, htells⟩ := h.resume hresume
    exact ⟨hquiet nofun (congrArg Line.wire (line_resume hresume)) hattends, htells⟩
  | @deliver message outbox link seen sent hidle _ hsend =>
    have hgone : c.link = .gone → link = .gone := by
      intro hgone
      rw [hgone] at hsend
      cases hsend
      rfl
    have hdelivered : Attends { c with
        outbox, link, passed := { c.passed with toUser := c.passed.toUser ++ seen } } answers taken :=
      ⟨h.asking.relink hidle hgone, h.line, h.owed, h.unread⟩
    exact ⟨hquiet nofun rfl hdelivered, .none rfl⟩
  | lost =>
    have hlost : Attends { c with
        link := .gone, callback := .idle, feed := c.feed.close, outbox := [] } answers taken :=
      ⟨h.asking.lost, h.line, h.owed, h.unread⟩
    exact ⟨hquiet nofun rfl hlost, .none rfl⟩
  | @ask writing now incoming hstate hcall =>
    have hline := h.line
    rw [hstate] at hline
    refine ⟨hquiet nofun rfl (h.of_line rfl rfl rfl ?_), .none rfl⟩
    rw [hstate]
    exact hline.asks hcall
  | askToClose =>
    have hcalls : requestCalls (c.commands ++ [.close c.nextCall]) = requestCalls c.commands := by
      rw [requestCalls_snoc]
      exact List.append_nil _
    have hsame : Line.Quiet c.line { c.line with
        nextCall := c.nextCall + 1, commands := c.commands ++ [.close c.nextCall] } :=
      ⟨rfl, hcalls, rfl, rfl, rfl, id⟩
    have hline := h.line.quiet hsame (Nat.le_succ _) id id
    exact ⟨hquiet nofun rfl (h.of_line rfl rfl rfl hline), .none rfl⟩
  | release hstep =>
    obtain ⟨-, -, -, rfl, rfl⟩ := Owner.step?_release hstep
    exact ⟨hquiet nofun rfl (h.alike ⟨rfl, rfl, rfl⟩ rfl), .none rfl⟩
  | read hinbox hstep =>
    obtain ⟨hattends, hverdicts⟩ := h.read hinbox hstep
    exact ⟨hattends, .none hverdicts⟩
  | @obey command commands sending owner effects hcommands hstep =>
    obtain ⟨hended, hobey⟩ := Owner.step?_command hstep
    cases command with
    | request call request wantReply =>
      obtain ⟨hattends, hverdicts⟩ := h.obeyRequest hcommands hended hobey
      exact ⟨hattends, .none hverdicts⟩
    | close call =>
      obtain ⟨hattends, hwire, hverdicts⟩ := h.obeyClose hcommands hobey
      exact ⟨hquiet nofun hwire hattends, .none hverdicts⟩
  | finish hgone hstep =>
    obtain ⟨hattends, hwire, hverdicts⟩ := h.finish hgone hstep
    exact ⟨hquiet nofun hwire hattends, .none hverdicts⟩
  | host | write => exact ⟨hquiet nofun rfl (h.alike ⟨rfl, rfl, rfl⟩ rfl), .none rfl⟩

/-! ### The pipe -/

variable {a : PipeAction} {p : Pipe}

theorem forwarding_step (hstep : c.pipe.step? a = some p)
    (hother : a.worker? ≠ some (.requests .inbound)) :
    p.forwarding .inbound = c.pipe.forwarding .inbound ∨ p.forwarding .inbound = .gone := by
  rcases Pipe.unmoved_of_step (Pipe.step_of_step? hstep) hother with hsame | hgone
  · exact .inl hsame
  · exact .inr (Pipe.isGone_requests.mp hgone)

/-- The forwarding task comes to its end. -/
theorem Attends.ends (h : Attends c answers taken) (hover : (p.forwarding .inbound).IsOver) :
    Attends { c with pipe := p } answers taken :=
  ⟨h.asking, h.line.ends hover, owes_of_over hover, fun _ => hover⟩

/-- A step that is not one of the task that forwards the user's requests. -/
theorem Attends.follow (h : Attends c answers taken) (halike : Alike c c₁) (hpipe : c₁.pipe = c.pipe)
    (hstep : c₁.pipe.step? a = some p) (hother : a.worker? ≠ some (.requests .inbound)) :
    Attends { c₁ with pipe := p } answers taken := by
  have h₁ : Attends c₁ answers taken := h.alike halike (by rw [hpipe])
  rcases forwarding_step hstep hother with hsame | hgone
  · exact h₁.alike ⟨rfl, rfl, rfl⟩ hsame
  · exact h₁.ends (by rw [hgone]; trivial)

/-- A verdict that is known is the one on the request that was taken last. -/
theorem Attends.fair_of_known (h : Attends c answers taken) {before : List Asked} {item : Asked}
    (htaken : taken = before ++ [item]) {asker : AskId} (hasker : item.asker = some asker)
    {accepted : Bool} (hknown : c.line.Known answers.given before item accepted) :
    c.Fair answers.given (asker, some accepted) := by
  have hprefix : before ++ [item] <+: asked (requestsAsked c.passed.fromUser) :=
    htaken ▸ h.asking.taken_prefix
  obtain ⟨request, hrequest, hitem, hturn⟩ := request_of_last hprefix
  have hwants : request.wantsReply = true := by
    have hwant := wantReply_of_asker hprefix (List.mem_append_right _ List.mem_cons_self) hasker
    rw [hitem] at hwant
    exact hwant
  have hmine : before.length = asker := by
    rw [hitem, Asked.of, if_pos hwants] at hasker
    exact Option.some.inj hasker
  refine ⟨request, hmine ▸ hrequest, ?_⟩
  rw [if_pos hwants, verdictOn, ← hmine, ← hturn]
  rcases hknown (by rw [hitem]; exact hwants) with hgiven | ⟨hfalse, hclosed, hnone⟩
  · exact ⟨accepted, rfl, .inl hgiven⟩
  · exact ⟨accepted, rfl, .inr ⟨hfalse, .inr ⟨.inr hclosed, hnone⟩⟩⟩

theorem deliverVerdicts_line (c : Channel) (verdicts : List FeedVerdict) :
    (c.deliverVerdicts verdicts).line = c.line := by
  rcases c.deliverVerdicts_cases verdicts with hsame | ⟨v, -, -, hsettle⟩
  · rw [hsame]
  · rw [hsettle]
    rfl

/-- A task that takes a request owes nobody a reply to the one before. -/
theorem Attends.refused_eq (h : Attends c answers taken) (hstate : c.pipe.forwarding .inbound = .waiting)
    {feed : Feed} {outcome : Taken Incoming} {refused : List FeedVerdict}
    (htake : c.feed.takeRequest = (feed, outcome, refused)) : refused = [] := by
  have howed := h.owed
  rw [hstate] at howed
  unfold Feed.takeRequest at htake
  split at htake <;> cases htake
  · rw [show c.feed.owed = none from howed]
    rfl
  · rfl
  · rfl

theorem takeRequest_ended {f feed : Feed} {refused : List FeedVerdict}
    (h : f.takeRequest = (feed, .ended, refused)) : feed = f := by
  unfold Feed.takeRequest at h
  split at h
  · cases h
  · next requests hrequests =>
    cases h
    rw [(Queue.take_ended hrequests).1]
  · cases h

/-- The forwarding task takes a request. -/
theorem Attends.takes (h : Attends c answers taken) (hstate : c.pipe.forwarding .inbound = .waiting)
    {feed : Feed} {incoming : Incoming} {refused : List FeedVerdict}
    (htake : c.feed.takeRequest = (feed, .item incoming, refused))
    (hnext : p.forwarding .inbound = .recording incoming ∨
      p.forwarding .inbound = .sending incoming) :
    ∃ item, Attends { c with feed, pipe := p } answers (taken ++ [item]) := by
  unfold Feed.takeRequest at htake
  split at htake
  · next requests item hrequests =>
    cases htake
    have hasking := h.asking.take hrequests
    have hline := h.line
    rw [hstate] at hline
    have hplain : item.IsPlain := isPlain_of_prefix hasking.taken_prefix item
      (List.mem_append_right _ List.mem_cons_self)
    refine ⟨item, hasking, hline.takes hplain hnext, ?_, fun hread => ?_⟩
    · rcases hnext with hnext | hnext
      · exact (congrArg (Owes _ _) hnext).mpr ⟨taken, item, rfl, rfl⟩
      · exact (congrArg (Owes _ _) hnext).mpr ⟨taken, item, rfl, rfl⟩
    · exact h.reads hstate id ((Queue.take_keeps hrequests).2.symm.trans hread)
  · cases htake
  · cases htake

/-- The forwarding task has the owner's answer. -/
theorem Attends.collects (h : Attends c answers taken) {incoming : Incoming} {call : CallId}
    {result : Except RelayError Bool}
    (hstate : c.pipe.forwarding .inbound = .sending incoming) (hcall : c.forwardCall = some call)
    (hresult : c.answered.lookup call = some result)
    (hnext : p.forwarding .inbound = match result with
      | .error e => .reporting (.error e)
      | .ok accepted => if incoming.wantReply then .replying accepted else .waiting) :
    Attends { c with forwardCall := none, pipe := p } answers taken := by
  have hline := h.line
  have howed := h.owed
  rw [hstate] at hline howed
  obtain ⟨herror, hok⟩ := hline.collects hcall hresult
  rcases result with e | accepted
  · refine ⟨h.asking, ?_, ?_, h.reads hstate id⟩
    · show Line.Holds _ (p.forwarding .inbound) _ _
      rw [hnext]
      exact herror e rfl
    · show Owes _ _ (p.forwarding .inbound)
      rw [hnext]
      trivial
  · refine ⟨h.asking, ?_, ?_, h.reads hstate id⟩
    · show Line.Holds _ (p.forwarding .inbound) _ _
      rw [hnext]
      exact hok accepted rfl
    · show Owes c.feed.owed _ (p.forwarding .inbound)
      rw [hnext]
      dsimp only
      split_ifs with hwant
      · exact howed
      · -- A request that takes no reply has nobody who waits for one.
        obtain ⟨before, item, htaken, hasker⟩ := howed
        obtain ⟨before', item', htaken', hitem, -⟩ := hline.stage
        obtain ⟨-, hsame⟩ := List.append_inj' (htaken.symm.trans htaken') rfl
        cases hsame
        rw [← hasker]
        show item.asker = none
        refine Option.eq_none_iff_forall_ne_some.mpr fun asker hsome => hwant ?_
        rw [← hitem]
        exact wantReply_of_asker h.asking.taken_prefix
          (htaken ▸ List.mem_append_right _ List.mem_cons_self) hsome

/-- The forwarding task passes the answer back to whoever waits for it. -/
theorem Attends.replies (h : Attends c answers taken) {accepted : Bool} {feed : Feed}
    {verdicts : List FeedVerdict} (hstate : c.pipe.forwarding .inbound = .replying accepted)
    (hreply : c.feed.reply accepted = (feed, verdicts)) (hnext : p.forwarding .inbound = .waiting) :
    let c' := { { c with feed }.deliverVerdicts verdicts with pipe := p }
    Attends c' answers taken ∧ Tells c c' (c'.Fair answers.given) := by
  intro c'
  have hline := h.line
  have howed := h.owed
  rw [hstate] at hline howed
  obtain ⟨before, item, htaken, hasker⟩ := howed
  obtain ⟨before', item', htaken', -, -, hknown⟩ := hline.stage
  obtain ⟨hbefore, hsame⟩ := List.append_inj' (htaken.symm.trans htaken') rfl
  cases hbefore
  cases hsame
  cases hreply
  have hmoved : Attends { c with feed := { c.feed with owed := none }, pipe := p } answers taken := by
    refine ⟨h.asking, ?_, ?_, h.reads hstate id⟩
    · show Line.Holds _ (p.forwarding .inbound) _ _
      rw [hnext]
      exact hline.replies
    · show Owes _ _ (p.forwarding .inbound)
      rw [hnext]
      rfl
  rcases deliverVerdicts_cases { c with feed := { c.feed with owed := none } }
      (c.feed.owed.toList.map fun asker => { asker, accepted }) with
    hno | ⟨v, hmem, hcallback, hsettle⟩
  · have heq : c' = { c with feed := { c.feed with owed := none }, pipe := p } :=
      congrArg (fun c : Channel => { c with pipe := p }) hno
    rw [heq]
    exact ⟨hmoved, .none rfl⟩
  · -- Who hears the answer is the asker that the reply was owed to, so it is about the item at the end.
    have heq : c' = { { c with feed := { c.feed with owed := none }, pipe := p } with
        }.settle v.asker (some v.accepted) :=
      congrArg (fun c : Channel => { c with pipe := p }) hsettle
    obtain ⟨asker, howed, rfl⟩ := List.mem_map.mp hmem
    rw [heq]
    refine ⟨hmoved.settle (by rw [hcallback]; rfl) (fun _ _ => by rw [hcallback]; rfl) _, ?_⟩
    refine .one rfl (hmoved.fair_of_known htaken (hasker.trans ?_) hknown)
    exact Option.mem_toList.mp howed

/-- The other parts of the channel have no part in the way of a request. -/
theorem alike_of_prepares (h : Prepares c action a c₁) (hother : a.worker? ≠ some (.requests .inbound)) :
    Alike c c₁ ∧ c₁.pipe = c.pipe := by
  cases h with
  | readFromUser htake | readEndFromUser htake =>
    cases (congrArg Prod.fst htake).symm
    exact ⟨⟨rfl, rfl, rfl⟩, rfl⟩
  | recordFromUser hrecord | recordFromHost hrecord =>
    obtain ⟨log, rfl⟩ := record?_eq hrecord
    exact ⟨⟨rfl, rfl, rfl⟩, rfl⟩
  | @writeToHost writing now chunk _ _ hwrite =>
    obtain ⟨dataToHost, heq⟩ := c.writeToHost_eq chunk writing
    rw [hwrite] at heq
    cases heq
    exact ⟨⟨rfl, rfl, rfl⟩, rfl⟩
  | @halfCloseHost writing now _ _ hhalf =>
    obtain ⟨halfCloses, heq⟩ := c.halfCloseHost_eq writing
    rw [hhalf] at heq
    cases heq
    exact ⟨⟨rfl, rfl, rfl⟩, rfl⟩
  | writeToUser hpost | halfCloseUser hpost | closeUser hpost =>
    obtain ⟨outbox, rfl⟩ := post?_eq hpost
    exact ⟨⟨rfl, rfl, rfl⟩, rfl⟩
  | sendToUser hsend =>
    obtain ⟨outbox, rfl⟩ := requestToUser?_eq hsend
    exact ⟨⟨rfl, rfl, rfl⟩, rfl⟩
  | takeFromUser | takeEndFromUser | recordCommand | sendToEnded | collect | replyToUser =>
    exact absurd rfl hother
  | _ => exact ⟨⟨rfl, rfl, rfl⟩, rfl⟩

/-- The forwarding task has recorded a command. -/
theorem Attends.records (h : Attends c answers taken) {incoming : Incoming}
    (hstate : c.pipe.forwarding .inbound = .recording incoming)
    (hnext : p.forwarding .inbound = .sending incoming) : Attends { c with pipe := p } answers taken := by
  have hline := h.line
  have howed := h.owed
  rw [hstate] at hline howed
  refine ⟨h.asking, ?_, ?_, h.reads hstate id⟩
  · show Line.Holds _ (p.forwarding .inbound) _ _
    rw [hnext]
    exact hline.records
  · show Owes _ _ (p.forwarding .inbound)
    rw [hnext]
    exact howed

/-- The task that forwards the user's requests takes a step. -/
theorem Attends.forwards (h : Attends c answers taken) (hprepares : Prepares c action a c₁)
    (hstep : c₁.pipe.step? a = some p) (hmine : a.worker? = some (.requests .inbound)) :
    ∃ taken', Attends { c₁ with pipe := p } answers taken' ∧
      Tells c { c₁ with pipe := p } (Fair { c₁ with pipe := p } answers.given) ∧
      c₁.passed.requestsToHost = c.passed.requestsToHost := by
  have hself : ∀ {state : Forwarding},
      (c.pipe.setForwarding .inbound state).forwarding .inbound = state := by
    intro state
    rfl
  cases hprepares with
  | @takeFromUser writing now feed incoming refused htake =>
    rw [deliverVerdicts_pipe] at hstep
    cases Pipe.step_of_step? hstep with
    | took hstate =>
      cases h.refused_eq hstate htake
      have hnext : c.pipe.afterTake .inbound incoming = .recording incoming ∨
          c.pipe.afterTake .inbound incoming = .sending incoming := by
        unfold Pipe.afterTake
        split
        · split_ifs
          · exact .inl rfl
          · exact .inr rfl
        · exact .inr rfl
      obtain ⟨item, htakes⟩ : ∃ item, Attends { c with
          feed, pipe := c.pipe.setForwarding .inbound (c.pipe.afterTake .inbound incoming) } answers
          (taken ++ [item]) := by
        refine h.takes hstate htake ?_
        rw [hself]
        exact hnext
      exact ⟨_, htakes, .none rfl, rfl⟩
  | @takeEndFromUser writing now feed refused htake =>
    rw [deliverVerdicts_pipe] at hstep
    cases Pipe.step_of_step? hstep with
    | tookEnd hstate =>
      cases h.refused_eq hstate htake
      cases takeRequest_ended htake
      exact ⟨taken, h.ends (by rw [hself]; trivial), .none rfl, rfl⟩
  | recordCommand hrecord =>
    obtain ⟨log, rfl⟩ := record?_eq hrecord
    cases Pipe.step_of_step? hstep with
    | recordedCommand hstate _ =>
      have hlogged : Attends { c with log } answers taken := h.alike ⟨rfl, rfl, rfl⟩ rfl
      exact ⟨taken, hlogged.records hstate hself, .none rfl, rfl⟩
  | sendToEnded =>
    cases Pipe.step_of_step? hstep with
    | sendError hstate => exact ⟨taken, h.ends (by rw [hself]; trivial), .none rfl, rfl⟩
  | @collect writing now incoming call result hcall hresult =>
    cases Pipe.step_of_step? hstep with
    | sent hstate => exact ⟨taken, h.collects hstate hcall hresult hself, .none rfl, rfl⟩
    | sendError hstate => exact ⟨taken, h.collects hstate hcall hresult hself, .none rfl, rfl⟩
  | @replyToUser writing now accepted feed verdicts hreply =>
    rw [deliverVerdicts_pipe] at hstep
    cases Pipe.step_of_step? hstep with
    | replied hstate =>
      obtain ⟨hattends, htells⟩ := h.replies hstate hreply hself
      exact ⟨taken, hattends, htells, congrArg Line.wire (deliverVerdicts_line _ verdicts)⟩
  | _ => cases hmine

/-- A step of the pipe. -/
theorem Attends.along (h : Attends c answers taken) (hprepares : Prepares c action a c₁)
    (hstep : c₁.pipe.step? a = some p) :
    ∃ taken', Attends { c₁ with pipe := p } answers taken' ∧
      Tells c { c₁ with pipe := p } (Fair { c₁ with pipe := p } answers.given) ∧
      c₁.passed.requestsToHost = c.passed.requestsToHost := by
  by_cases hmine : a.worker? = some (.requests .inbound)
  · exact h.forwards hprepares hstep hmine
  · obtain ⟨halike, hpipe⟩ := alike_of_prepares hprepares hmine
    exact ⟨taken, h.follow halike hpipe hstep hmine, .none halike.verdicts,
      congrArg Line.wire halike.line⟩

/-! ### Steps and runs -/

theorem dropEnded_line (c : Channel) : c.dropEnded.line = c.line := by
  unfold Channel.dropEnded
  exact deliverVerdicts_line _ _

/-- Dropping what ended tasks held makes nothing unfair. -/
theorem Fair.dropEnded {given : List Bool} {entry : AskId × Option Bool} (h : c.Fair given entry) :
    c.dropEnded.Fair given entry := by
  unfold Channel.dropEnded
  dsimp only
  rcases deliverVerdicts_cases _ _ with hsame | ⟨v, -, -, hsettle⟩
  · rw [hsame]
    exact h
  · rw [hsettle]
    exact h

theorem Tells.trans {c₂ : Channel} {fair : AskId × Option Bool → Prop} (h : Tells c c₁ fair)
    (h' : Tells c₁ c₂ fair) : Tells c c₂ fair := by
  obtain ⟨told, heq, hfair⟩ := h
  obtain ⟨told', heq', hfair'⟩ := h'
  refine ⟨told ++ told', by rw [heq', heq, List.append_assoc], fun entry hmem => ?_⟩
  rcases List.mem_append.mp hmem with hmem | hmem
  · exact hfair entry hmem
  · exact hfair' entry hmem

theorem Tells.imp {fair fair' : AskId × Option Bool → Prop} (h : Tells c c' fair)
    (himp : ∀ entry, fair entry → fair' entry) : Tells c c' fair' := by
  obtain ⟨told, heq, hfair⟩ := h
  exact ⟨told, heq, fun entry hmem => himp entry (hfair entry hmem)⟩

theorem ne_read_of_prepares (h : Prepares c action a c₁) : action ≠ .read := by
  cases h <;> nofun

/-- One step of the channel. -/
theorem Attends.step (h : Attends c answers taken) (hstep : c.step? action = some c') :
    ∃ taken', Attends c' ((c.exchanged action c').foldl Answers.next answers) taken' ∧
      Tells c c' (c'.Fair answers.given) := by
  -- A step of the pipe may end tasks, and what these held is dropped in the same step.
  rcases step_of_step? hstep with halone | ⟨a, c₁, p, hprepares, hpipe, rfl⟩
  · exact ⟨taken, h.alone halone⟩
  · obtain ⟨taken', hattends, htells, hwire⟩ := h.along hprepares hpipe
    obtain ⟨hdropped, hrefuses⟩ := hattends.dropEnded
    have hquiet : c.exchanged action (Channel.dropEnded { c₁ with pipe := p }) = [] := by
      refine exchanged_of_eq (ne_read_of_prepares hprepares) ?_
      exact (congrArg Line.wire (dropEnded_line _)).trans hwire
    rw [hquiet]
    exact ⟨taken', hdropped, (htells.imp fun entry hfair => hfair.dropEnded).trans hrefuses⟩

theorem attends_start (streams : Recording.SessionStreams) : Attends (start streams) {} [] where
  asking := by
    refine ⟨rfl, List.prefix_refl _, fun _ _ => rfl, nofun, nofun, nofun, List.nodup_nil, nofun, nofun,
      nofun, nofun⟩
  line := by
    refine ⟨⟨⟨rfl, rfl, rfl⟩, List.prefix_refl _, fun _ => rfl⟩, nofun, nofun, rfl, fun _ _ => rfl⟩
  owed := rfl
  unread := nofun

theorem Attends.run {actions : List ChannelAction} :
    ∀ {c : Channel} {answers : Answers} {taken : List Asked}, Attends c answers taken →
      c.run? actions = some c' →
      ∃ taken', Attends c' ((c.wireEvents actions).foldl Answers.next answers) taken' := by
  induction actions with
  | nil =>
    intro c answers taken h hrun
    cases hrun
    exact ⟨taken, h⟩
  | cons action more ih =>
    intro c answers taken h hrun
    obtain ⟨c₁, hstep, hrest⟩ := Option.bind_eq_some_iff.mp hrun
    obtain ⟨taken₁, hnext, -⟩ := h.step hstep
    obtain ⟨taken', hlast⟩ := ih hnext hrest
    refine ⟨taken', ?_⟩
    rw [wireEvents, hstep, List.foldl_append]
    exact hlast

end Channel

/-- In every channel that can be reached, requests reach the host in the order in which the user has sent
them, each at most once, and every asker is told something at most once. Whatever is told in a next step
is the host's answer to the request itself, or a refusal where none is known. -/
theorem verdicts_are_fair {streams : Recording.SessionStreams} {actions : List ChannelAction}
    {c c' : Channel} {action : ChannelAction} (hrun : (Channel.start streams).run? actions = some c)
    (hstep : c.step? action = some c') :
    c'.passed.requestsToHost <+:
        ((requestsAsked c'.passed.fromUser).filter Request.isForServer).map .ofRequest ∧
      (c'.passed.verdicts.map Prod.fst).Nodup ∧
      ∃ told, c'.passed.verdicts = c.passed.verdicts ++ told ∧
        ∀ entry ∈ told, c'.Fair ((Channel.start streams).answersGiven actions) entry := by
  obtain ⟨taken, hattends⟩ := (Channel.attends_start streams).run hrun
  obtain ⟨taken', hnext, htells⟩ := hattends.step hstep
  refine ⟨?_, hnext.asking.once, htells⟩
  obtain ⟨front, hfront, rfl⟩ := asked_of_prefix hnext.asking.taken_prefix
  have hsent : c'.passed.requestsToHost <+: forHost (asked front) := hnext.line.stage.left.sent
  rw [forHost_asked] at hsent
  exact hsent.trans ((hfront.filter _).map _)

/-- A user who resizes the window and starts a shell, and a host that accepts. -/
theorem verdicts_are_fair_shell :
    let resize : Request := .windowChange 80 24 0 0
    let task : ChannelAction := .task (.requests .inbound) (.ok ()) ⟨0, 0⟩
    let actions : List ChannelAction := [
      .user (.request resize), .user (.request .shell), task, task, .obey (.ok ()), task, task, task,
      .obey (.ok ()), .host .success, .read, task]
    ∃ c c', (Channel.start {}).run? actions = some c ∧ c.step? task = some c' ∧
      c.passed.verdicts = [(0, none)] ∧ c'.passed.verdicts = [(0, none), (1, some true)] ∧
      c'.passed.requestsToHost = [.ofRequest resize, .ofRequest .shell] ∧
      c'.Fair ((Channel.start {}).answersGiven actions) (1, some true) := by
  intro resize task actions
  have hlater : (((Channel.start {}).run? actions).bind fun c => c.step? task).map
      (fun c' => (c'.passed.verdicts, c'.passed.requestsToHost)) =
      some ([(0, none), (1, some true)], [.ofRequest resize, .ofRequest .shell]) := by decide +kernel
  have hsooner : ((Channel.start {}).run? actions).map (·.passed.verdicts) = some [(0, none)] := by
    decide +kernel
  obtain ⟨c', hboth, heq⟩ := Option.map_eq_some_iff.mp hlater
  obtain ⟨c, hrun, hstep⟩ := Option.bind_eq_some_iff.mp hboth
  obtain ⟨hverdicts, hrequests⟩ := Prod.mk.inj heq
  have hbefore : c.passed.verdicts = [(0, none)] := by
    rw [hrun] at hsooner
    exact Option.some.inj hsooner
  obtain ⟨-, -, told, htold, hfair⟩ := verdicts_are_fair hrun hstep
  rw [hbefore, hverdicts] at htold
  cases htold
  exact ⟨c, c', hrun, hstep, hbefore, hverdicts, hrequests, hfair _ List.mem_cons_self⟩

end Gatehouse.Relay
