import Gatehouse.Proofs.Relay.ChannelStep
import Gatehouse.Proofs.Relay.ExitWay

/-!
# An exit status arrives before the close

`closing_comes_last`: a side of a pipe is closed last, and in a relayed channel the close that the user
is told comes after every exit status and exit signal that the host has sent before its own close.

Proof. The first is `Pipe.complete_of_closing`. For the second, every step of the channel without a
failure keeps it `Channel.Sound`: its pipe is sound, and the exits are on their way on the host's side
and on the user's. The pipe closes the user's channel only when the host's side is drained, that is when
it has taken the end of the requests and has sent all requests it had taken. Then on the host's side
nothing is left, and on the user's side the close goes through the outbox behind the exits.
-/

namespace Gatehouse.Relay

/-- A task of the pipe dies. -/
def ChannelAction.isDeath : ChannelAction → Bool
  | .dies _ => true
  | _ => false

namespace Channel

variable {c c' c₁ : Channel} {action : ChannelAction} {trace : List PipeAction}

/-! ### What a sound channel is -/

def gathering (c : Channel) : Gathering where
  requests := c.owner.demux.requests
  held := c.owner.demux.held
  remoteClosed := c.owner.remoteClosed
  inbox := c.inbox
  fromHost := c.passed.fromHost

def telling (c : Channel) : Telling where
  outbox := c.outbox
  toUser := c.passed.toUser
  link := c.link

/-- A channel without failures, whose pipe has taken these steps. -/
structure Sound (c : Channel) (trace : List PipeAction) : Prop where
  pipe : c.pipe.Sound trace
  gathered : ∃ seen, Gathered trace c.gathering seen
  told : Told trace c.telling

/-- Nothing has happened but that the user may have been told verdicts. -/
structure Keeps (c c' : Channel) : Prop where
  pipe : c'.pipe = c.pipe
  gathering : c'.gathering = c.gathering
  told : ∀ {trace}, Told trace c.telling → Told trace c'.telling

theorem Keeps.of_eq (hpipe : c'.pipe = c.pipe) (hgathering : c'.gathering = c.gathering)
    (htelling : c'.telling = c.telling) : Keeps c c' :=
  ⟨hpipe, hgathering, fun htold => htelling ▸ htold⟩

theorem Keeps.refl (c : Channel) : Keeps c c :=
  .of_eq rfl rfl rfl

theorem Keeps.trans {c₂ : Channel} (h : Keeps c c₁) (h' : Keeps c₁ c₂) : Keeps c c₂ :=
  ⟨h'.pipe.trans h.pipe, h'.gathering.trans h.gathering, fun htold => h'.told (h.told htold)⟩

theorem Sound.keeps (h : c.Sound trace) (hkeeps : Keeps c c') : c'.Sound trace := by
  obtain ⟨seen, hgathered⟩ := h.gathered
  exact ⟨hkeeps.pipe ▸ h.pipe, ⟨seen, hkeeps.gathering ▸ hgathered⟩, hkeeps.told h.told⟩

theorem keeps_settle (c : Channel) (asker : AskId) (verdict : Option Bool) :
    Keeps c (c.settle asker verdict) := by
  refine ⟨rfl, rfl, fun {trace} htold => ?_⟩
  have hsame : Told trace { c.telling with toUser := c.passed.toUser ++ [] } := by
    rw [List.append_nil]
    exact htold
  rcases verdict with _ | accepted
  · exact hsame
  · cases hlink : c.link with
    | running =>
      have hreply := htold.reply hlink accepted
      simpa only [settle, telling, hlink] using hreply
    | closed | gone => simpa only [settle, telling, hlink] using hsame

theorem keeps_deliverVerdicts (c : Channel) (verdicts : List FeedVerdict) :
    Keeps c (c.deliverVerdicts verdicts) := by
  unfold deliverVerdicts
  induction verdicts generalizing c with
  | nil => exact .refl c
  | cons v verdicts ih =>
    rw [List.foldl_cons]
    split_ifs
    · exact (keeps_settle c v.asker (some v.accepted)).trans (ih _)
    · exact ih c

theorem keeps_offer (c : Channel) (chunk : Chunk) : Keeps c (c.offer chunk) := by
  unfold offer
  split <;> exact .of_eq rfl rfl rfl

theorem keeps_ask (c : Channel) (asker : AskId) (request : Request) :
    Keeps c (c.ask asker request) := by
  unfold ask
  split
  · exact .of_eq rfl rfl rfl
  · exact .of_eq rfl rfl rfl
  · next feed verdict _ =>
    have hfeed : Keeps c { c with feed } := .of_eq rfl rfl rfl
    exact hfeed.trans (keeps_settle _ asker verdict)

theorem keeps_call (c : Channel) (input : UserInput) : Keeps c (c.call input) := by
  have hpassed : Keeps c
      { c with passed := { c.passed with fromUser := c.passed.fromUser ++ [input] } } :=
    .of_eq rfl rfl rfl
  cases input with
  | data chunk => exact hpassed.trans (keeps_offer _ chunk)
  | eof => exact .of_eq rfl rfl rfl
  | request request =>
    have hnext : Keeps c { c with
        passed := { c.passed with fromUser := c.passed.fromUser ++ [.request request] }
        nextAsker := c.nextAsker + 1 } := .of_eq rfl rfl rfl
    exact hnext.trans (keeps_ask _ c.nextAsker request)
  | close =>
    have hcut : UserLink.closed ≠ .running := by decide
    exact ⟨rfl, rfl, fun htold => htold.cut hcut⟩

theorem keeps_resume? (h : c.resume? = some c') : Keeps c c' := by
  unfold resume? at h
  split at h
  · split_ifs at h
    cases h
    exact keeps_offer c _
  · split_ifs at h
    cases h
    exact keeps_ask c _ _
  · cases h
  · cases h

/-! ### The owner -/

theorem keeps_effects (effects : List OwnerEffect) :
    ∀ c : Channel, Keeps c (effects.foldl effect c) := by
  induction effects with
  | nil => exact .refl
  | cons e effects ih =>
    intro c
    have hone : Keeps c (c.effect e) := by
      cases e <;> exact .of_eq rfl rfl rfl
    exact hone.trans (ih _)

/-- Adding to a queue with both its ends keeps the order, be the new item in the queue or given back. -/
theorem push_request {q : Queue Incoming} (hfed : q.fed = true) (hread : q.read = true)
    (incoming : Incoming) :
    (q.push incoming).1.fed = true ∧ (q.push incoming).1.read = true ∧
      (q.push incoming).1.items ++ heldRequests ((q.push incoming).2.map .request) =
        q.items ++ [incoming] := by
  rcases q.push_cases incoming with ⟨hno, -⟩ | ⟨-, hno, -⟩ | ⟨-, -, hpush | hpush⟩
  · exact absurd (hfed.symm.trans hno) nofun
  · exact absurd (hread.symm.trans hno) nofun
  · rw [hpush]
    exact ⟨hfed, hread, List.append_nil _⟩
  · rw [hpush]
    exact ⟨hfed, hread, rfl⟩

theorem heldRequests_data (rest : Option Chunk) : heldRequests (rest.map .data) = [] := by
  cases rest <;> rfl

theorem Sound.release {owner : Owner} {effects : List OwnerEffect} (h : c.Sound trace)
    (hstep : c.owner.step? .release = some (owner, effects)) : Sound { c with owner } trace := by
  obtain ⟨seen, hgathered⟩ := h.gathered
  obtain ⟨-, hblocked, -, rfl, -⟩ := Owner.step?_release hstep
  refine ⟨h.pipe, ⟨seen, hgathered.release hblocked fun hfed hread => ?_⟩, h.told⟩
  obtain ⟨delivery, hheld⟩ := Option.isSome_iff_exists.mp hblocked
  simp only [gathering, Demux.release, hheld]
  cases delivery with
  | data chunk => exact ⟨hfed, hread, congrArg _ (heldRequests_data _)⟩
  | request incoming => exact push_request hfed hread incoming

/-- What the owner does with a message of the host. -/
theorem gathered_receive {o : Owner} {message : HostMessage} {inbox fromHost : List HostMessage}
    {seen : List HostMessage} (hopen : o.remoteClosed = false) (hfree : o.demux.held = none)
    (h : Gathered trace ⟨o.demux.requests, o.demux.held, o.remoteClosed, message :: inbox, fromHost⟩
      seen) :
    Gathered trace ⟨(o.receive message).1.demux.requests, (o.receive message).1.demux.held,
      (o.receive message).1.remoteClosed, inbox, fromHost⟩ (seen ++ [message]) := by
  obtain ⟨-, hfed, hread⟩ := h.ends_of_open hopen
  have hnone : heldRequests o.demux.held = [] := by rw [hfree, heldRequests_none]
  have hother : message.exit? = none → message ≠ .close → ∀ held, heldRequests held = [] →
      Gathered trace ⟨o.demux.requests, held, o.remoteClosed, inbox, fromHost⟩ (seen ++ [message]) := by
    intro hexit hclose held hheld
    refine h.reads hopen hfree rfl hclose ⟨hfed, hread⟩ ?_
    rw [hexit, hheld]
    rfl
  have hverdict : ∀ accepted, (o.verdict accepted).1.demux = o.demux ∧
      (o.verdict accepted).1.remoteClosed = o.remoteClosed := by
    intro accepted
    unfold Owner.verdict
    split <;> exact ⟨rfl, rfl⟩
  cases message with
  | data chunk => exact hother rfl (by simp) _ (heldRequests_data _)
  | eof | other => exact hother rfl (by simp) _ hnone
  | success | failure =>
    simp only [Owner.receive, hverdict]
    exact hother rfl (by simp) _ hnone
  | exitStatus | exitSignal =>
    obtain ⟨hfed', hread', hitems⟩ := push_request hfed hread (.ofRequest _)
    exact h.reads hopen hfree rfl (by simp) ⟨hfed', hread'⟩ hitems
  | close => exact h.readsClose hopen hfree rfl

theorem Sound.read {message : HostMessage} {inbox : List HostMessage} {owner : Owner}
    {effects : List OwnerEffect} (h : c.Sound trace) (hinbox : c.inbox = message :: inbox)
    (hstep : c.owner.step? (.message message) = some (owner, effects)) :
    Sound { c with inbox, owner } trace := by
  obtain ⟨seen, hgathered⟩ := h.gathered
  obtain ⟨-, hopen, hfree, hreceive⟩ := Owner.step?_message hstep
  rw [gathering, hinbox] at hgathered
  have hreceived := gathered_receive hopen (Option.isSome_eq_false_iff.mp hfree |>
    Option.isNone_iff_eq_none.mp) hgathered
  rw [hreceive] at hreceived
  exact ⟨h.pipe, ⟨seen ++ [message], hreceived⟩, h.told⟩

/-- The owner leaves when the pipe has returned, which it does when both its sides are drained. -/
theorem Sound.finish {owner : Owner} {effects : List OwnerEffect} (h : c.Sound trace)
    (hgone : c.callersGone = true) (hstep : c.owner.step? .finish = some (owner, effects)) :
    Sound { c with owner } trace := by
  obtain ⟨seen, hgathered⟩ := h.gathered
  obtain ⟨-, rfl, -⟩ := Owner.step?_finish hstep
  have hending : c.pipe.IsEnding := by
    simp only [callersGone, Bool.and_eq_true] at hgone
    obtain ⟨result, hresult⟩ := Option.isSome_iff_exists.mp hgone.1.2
    unfold Pipe.result? at hresult
    split at hresult
    · next hcontrol => exact .inr ⟨_, hcontrol⟩
    · cases hresult
  have hend := h.pipe.ended_of_gone (h.pipe.closes.ending hending .outbound).2
  exact ⟨h.pipe, ⟨seen, hgathered.finish hend⟩, h.told⟩

theorem keeps_obey {command : Command} {commands : List Command} {sending : Except String Unit}
    {owner : Owner} {effects : List OwnerEffect}
    (hstep : c.owner.step? (.command command sending) = some (owner, effects)) :
    Keeps c { c with commands, owner } := by
  obtain ⟨-, hobey⟩ := Owner.step?_command hstep
  obtain ⟨hdemux, hclosed⟩ := Owner.obey_keeps c.owner sending command
  rw [hobey] at hdemux hclosed
  dsimp only at hdemux hclosed
  refine .of_eq rfl ?_ rfl
  simp only [gathering, hdemux, hclosed]

/-- A step in which the pipe takes none keeps the channel sound. -/
theorem Sound.alone (h : c.Sound trace) (hstep : Alone c action c') : c'.Sound trace := by
  cases hstep with
  | user => exact h.keeps (keeps_call c _)
  | handler hresume => exact h.keeps (keeps_resume? hresume)
  | deliver _ houtbox hsend => exact ⟨h.pipe, h.gathered, h.told.deliver houtbox hsend⟩
  | lost =>
    have hcut : UserLink.gone ≠ .running := by decide
    exact ⟨h.pipe, h.gathered, h.told.clear hcut⟩
  | ask | askToClose | write => exact h.keeps (.of_eq rfl rfl rfl)
  | release hstep => exact (h.release hstep).keeps (keeps_effects _ _)
  | read hinbox hstep => exact (h.read hinbox hstep).keeps (keeps_effects _ _)
  | obey _ hstep => exact (h.keeps (keeps_obey hstep)).keeps (keeps_effects _ _)
  | finish hgone hstep => exact (h.finish hgone hstep).keeps (keeps_effects _ _)
  | @host message =>
    obtain ⟨seen, hgathered⟩ := h.gathered
    exact ⟨h.pipe, ⟨seen, hgathered.host message⟩, h.told⟩

/-! ### The pipe -/

theorem Sound.dropEnded (h : c.Sound trace) : c.dropEnded.Sound trace := by
  unfold Channel.dropEnded
  dsimp only
  generalize (if c.isOver (.requests .inbound) = true then _ else _ : Feed × List FeedVerdict) = left
  obtain ⟨feed, verdicts⟩ := left
  refine Sound.keeps ?_ (keeps_deliverVerdicts _ verdicts)
  refine ⟨h.pipe, ?_, h.told⟩
  obtain ⟨seen, hgathered⟩ := h.gathered
  refine ⟨seen, ?_⟩
  dsimp only [gathering]
  split_ifs with hover
  · refine hgathered.abandon ?_
    rw [isOver, Bool.or_eq_true] at hover
    rcases hover with hgone | hreport
    · exact h.pipe.ended_of_gone hgone
    · obtain ⟨result, hreport⟩ := Option.isSome_iff_exists.mp hreport
      exact h.pipe.ended_of_report hreport
  · exact hgathered

theorem requestToUser?_cases {request : Request} {result : Except RelayError Bool}
    (h : c.requestToUser? request = some (c₁, result)) :
    (∃ e, result = .error e) ∨
      (request.isForServer = true ∧ c₁ = c ∧ result = .ok false) ∨
      ∃ message : UserMessage, message.exit? = some request ∧ request.isForServer = false ∧
        c₁ = { c with outbox := c.outbox ++ [message] } ∧ result = .ok true := by
  have htold : ∀ message : UserMessage, requestToUser?.told c message = some (c₁, result) →
      (∃ e, result = .error e) ∨
        (c₁ = { c with outbox := c.outbox ++ [message] } ∧ result = .ok true) := by
    intro message htold
    obtain ⟨⟨c₂, posted⟩, hpost, heq⟩ := Option.bind_eq_some_iff.mp htold
    cases heq
    rcases post?_cases hpost with ⟨-, e, rfl⟩ | ⟨rfl, rfl⟩
    · exact .inl ⟨e, rfl⟩
    · exact .inr ⟨rfl, rfl⟩
  unfold requestToUser? at h
  split at h
  · rcases htold _ h with herror | ⟨rfl, rfl⟩
    · exact .inl herror
    · exact .inr (.inr ⟨_, rfl, rfl, rfl, rfl⟩)
  · rcases htold _ h with herror | ⟨rfl, rfl⟩
    · exact .inl herror
    · exact .inr (.inr ⟨_, rfl, rfl, rfl, rfl⟩)
  · next hstatus hsignal =>
    cases h
    refine .inr (.inl ⟨?_, rfl, rfl⟩)
    cases request with
    | exitStatus status => exact absurd rfl (hstatus status)
    | exitSignal name coreDumped message language =>
      exact absurd rfl (hsignal name coreDumped message language)
    | _ => rfl

theorem keeps_record? {record : Option Bytes} (h : c.record? record = some c₁) : Keeps c c₁ := by
  unfold record? at h
  split_ifs at h
  cases h
  exact .of_eq rfl rfl rfl

theorem keeps_writeToHost (c : Channel) (chunk : Chunk) (writing : Except String Unit) :
    Keeps c (c.writeToHost chunk writing).1 := by
  unfold writeToHost
  split
  · exact .refl c
  · split <;> exact .of_eq rfl rfl rfl

theorem keeps_halfCloseHost (c : Channel) (writing : Except String Unit) :
    Keeps c (c.halfCloseHost writing).1 := by
  unfold halfCloseHost
  split
  · exact .refl c
  · split <;> exact .of_eq rfl rfl rfl

variable {a : PipeAction} {p : Pipe}

/-- A step of the pipe that passes on no request of the host. -/
theorem Sound.follow (h : c.Sound trace) (hkeeps : Keeps c c₁) (hstep : c₁.pipe.step? a = some p)
    (hok : a.fails = false) (htaking : a.taking? .outbound = none)
    (hsending : a.sending? .outbound = none) : Sound { c₁ with pipe := p } (trace ++ [a]) := by
  have h := h.keeps hkeeps
  obtain ⟨seen, hgathered⟩ := h.gathered
  exact ⟨h.pipe.step (Pipe.step_of_step? hstep) hok, ⟨seen, hgathered.snoc htaking⟩,
    h.told.snoc hsending⟩

/-- A step of the task that forwards the host's requests to the user. -/
theorem Sound.takes (h : c.Sound trace) {incoming : Incoming} {requests : Queue Incoming}
    (htake : c.owner.demux.requests.take = (requests, .item incoming))
    (hstep : c.pipe.step? (.took .outbound (some incoming)) = some p) :
    Sound { c with
      owner := { c.owner with demux := { c.owner.demux with requests } }
      pipe := p } (trace ++ [.took .outbound (some incoming)]) := by
  obtain ⟨seen, hgathered⟩ := h.gathered
  have hstep' := Pipe.step_of_step? hstep
  have hnot : ¬ Pipe.Ended .outbound trace := by
    cases hstep' with
    | took hstate => exact h.pipe.not_ended_of_waiting hstate
  exact ⟨h.pipe.step hstep' rfl, ⟨seen, hgathered.took hnot htake⟩, h.told.snoc rfl⟩

theorem Sound.takesEnd (h : c.Sound trace) {requests : Queue Incoming}
    (htake : c.owner.demux.requests.take = (requests, .ended))
    (hstep : c.pipe.step? (.took .outbound none) = some p) :
    Sound { c with
      owner := { c.owner with demux := { c.owner.demux with requests } }
      pipe := p } (trace ++ [.took .outbound none]) := by
  obtain ⟨seen, hgathered⟩ := h.gathered
  have hstep' := Pipe.step_of_step? hstep
  have hnot : ¬ Pipe.Ended .outbound trace := by
    cases hstep' with
    | tookEnd hstate => exact h.pipe.not_ended_of_waiting hstate
  exact ⟨h.pipe.step hstep' rfl, ⟨seen, hgathered.tookEnd hnot htake⟩, h.told.snoc rfl⟩

theorem Sound.sends (h : c.Sound trace) {incoming : Incoming} {result : Except RelayError Bool}
    (hsend : c.requestToUser? incoming.request = some (c₁, result))
    (hstep : c₁.pipe.step? (.sent .outbound incoming result) = some p)
    (hok : (PipeAction.sent .outbound incoming result).fails = false) :
    Sound { c₁ with pipe := p } (trace ++ [.sent .outbound incoming result]) := by
  obtain ⟨seen, hgathered⟩ := h.gathered
  rcases requestToUser?_cases hsend with
    ⟨e, rfl⟩ | ⟨hserver, rfl, rfl⟩ | ⟨message, hexit, hserver, rfl, rfl⟩
  · cases hok
  · exact ⟨h.pipe.step (Pipe.step_of_step? hstep) hok, ⟨seen, hgathered.snoc rfl⟩,
      h.told.sendOther hserver false⟩
  · have hstep' := Pipe.step_of_step? hstep
    have hnot : ¬ Pipe.Ended .outbound trace := by
      cases hstep' with
      | sent hstate => exact h.pipe.not_ended_of_sending hstate
    exact ⟨h.pipe.step hstep' hok, ⟨seen, hgathered.snoc rfl⟩,
      h.told.postExit hnot hexit hserver true⟩

/-- A step of the task that copies the host's data to the user. -/
theorem Sound.posts (h : c.Sound trace) {message : UserMessage} {result : Except RelayError Unit}
    (hpost : c.post? message = some (c₁, result)) (hexit : message.exit? = none)
    (hclose : message ≠ .close) (hresult : ∀ e, result ≠ .error e)
    (hstep : c₁.pipe.step? a = some p) (hok : a.fails = false)
    (htaking : a.taking? .outbound = none) (hsending : a.sending? .outbound = none) :
    Sound { c₁ with pipe := p } (trace ++ [a]) := by
  rcases post?_cases hpost with ⟨-, e, rfl⟩ | ⟨rfl, -⟩
  · exact absurd rfl (hresult e)
  · have hposted : Sound { c with outbox := c.outbox ++ [message] } trace :=
      ⟨h.pipe, h.gathered, h.told.post hexit hclose⟩
    exact hposted.follow (.refl _) hstep hok htaking hsending

/-- The control loop closes the user's channel, which it does when the host's side is drained. -/
theorem Sound.closes (h : c.Sound trace) {result : Except RelayError Unit}
    (hpost : c.post? .close = some (c₁, result))
    (hstep : c₁.pipe.step? (.closed .inbound) = some p) :
    Sound { c₁ with pipe := p } (trace ++ [.closed .inbound]) := by
  rcases post?_cases hpost with ⟨rfl, -⟩ | ⟨rfl, -⟩
  · exact h.follow (.refl _) hstep rfl rfl rfl
  · have hend : Pipe.Ended .outbound trace := by
      cases Pipe.step_of_step? hstep with
      | closed hcontrol =>
        have hdrained := h.pipe.closes.closing _ _ hcontrol .inbound List.mem_cons_self
        exact h.pipe.ended_of_gone hdrained.2
    have hposted : Sound { c with outbox := c.outbox ++ [.close] } trace :=
      ⟨h.pipe, h.gathered, h.told.postClose hend⟩
    exact hposted.follow (.refl _) hstep rfl rfl rfl

/-- A step of the pipe keeps the channel sound. -/
theorem Sound.along (h : c.Sound trace) (hprepares : Prepares c action a c₁)
    (hstep : c₁.pipe.step? a = some p) (hok : a.fails = false) :
    Sound { c₁ with pipe := p } (trace ++ [a]) := by
  have hfeed : ∀ feed, Keeps c { c with feed } := fun feed => .of_eq rfl rfl rfl
  cases hprepares with
  | readFromUser | readEndFromUser => exact h.follow (hfeed _) hstep hok rfl rfl
  | recordFromUser hrecord | recordFromHost hrecord | recordCommand hrecord =>
    exact h.follow (keeps_record? hrecord) hstep hok rfl rfl
  | @writeToHost writing now chunk _ _ hwrite =>
    have hkeeps := keeps_writeToHost c chunk writing
    rw [hwrite] at hkeeps
    exact h.follow hkeeps hstep hok rfl rfl
  | @halfCloseHost writing now _ _ hhalf =>
    have hkeeps := keeps_halfCloseHost c writing
    rw [hhalf] at hkeeps
    exact h.follow hkeeps hstep hok rfl rfl
  | readFromHost | readEndFromHost | closeHost =>
    exact h.follow (.of_eq rfl rfl rfl) hstep hok rfl rfl
  | writeToUser hpost | halfCloseUser hpost =>
    refine h.posts hpost rfl (by simp) (fun e he => ?_) hstep hok rfl rfl
    rw [he] at hok
    cases hok
  | takeFromUser | takeEndFromUser | replyToUser =>
    exact h.follow ((hfeed _).trans (keeps_deliverVerdicts _ _)) hstep hok rfl rfl
  | sendToEnded => cases hok
  | @collect _ _ incoming call result =>
    rcases result with e | accepted
    · cases hok
    · exact h.follow (.of_eq rfl rfl rfl) hstep hok rfl rfl
  | takeFromHost htake => exact h.takes htake hstep
  | takeEndFromHost htake => exact h.takesEnd htake hstep
  | sendToUser hsend => exact h.sends hsend hstep hok
  | replyToHost | report | die | seeError | seeCompletion | seeNothing | findHostClosed =>
    exact h.follow (.refl _) hstep hok rfl rfl
  | closeUser hpost => exact h.closes hpost hstep

/-! ### Runs without failures -/

/-- No task of the pipe has an error to report. -/
def isCalm (c : Channel) : Bool :=
  Pipe.tasks.all fun task =>
    match c.pipe.report? task with
    | some (.error _) => false
    | _ => true

/-- No task of the pipe fails or dies in these steps. -/
def staysCalm (c : Channel) : List ChannelAction → Bool
  | [] => c.isCalm
  | action :: more =>
    c.isCalm && !action.isDeath &&
      match c.step? action with
      | some c' => c'.staysCalm more
      | none => true

theorem isCalm_of_staysCalm {actions : List ChannelAction} (h : c.staysCalm actions = true) :
    c.isCalm = true := by
  cases actions with
  | nil => exact h
  | cons action more =>
    simp only [staysCalm, Bool.and_eq_true] at h
    exact h.1.1

theorem report?_of_isCalm (h : c.isCalm = true) (task : PipeTask) (e : RelayError) :
    c.pipe.report? task ≠ some (.error e) := by
  intro hreport
  have hcalm := List.all_eq_true.mp h task (Pipe.mem_tasks task)
  rw [hreport] at hcalm
  cases hcalm

theorem Sound.step (h : c.Sound trace) (hstep : c.step? action = some c') (hcalm : c'.isCalm = true)
    (hdies : action.isDeath = false) : ∃ trace', c'.Sound trace' := by
  rcases step_of_step? hstep with halone | ⟨a, c₁, p, hprepares, hpipe, rfl⟩
  · exact ⟨trace, h.alone halone⟩
  · -- A failure would leave a task with an error to report, and dropping what ended tasks held does
    -- not touch the pipe.
    have hok : a.fails = false := by
      refine Pipe.fails_of_step (Pipe.step_of_step? hpipe) (fun task e => ?_) fun task heq => ?_
      · have hreport := report?_of_isCalm hcalm task e
        rw [dropEnded_pipe] at hreport
        exact hreport
      · subst heq
        cases hprepares
        cases hdies
    exact ⟨trace ++ [a], (h.along hprepares hpipe hok).dropEnded⟩

theorem sound_start (streams : Recording.SessionStreams) : (start streams).Sound [] where
  pipe := .fresh _
  gathered := by
    refine ⟨[], rfl, fun _ => List.not_mem_nil, fun hno => (by cases hno), fun hno => (by cases hno),
      fun _ _ => rfl, fun _ => ⟨rfl, rfl⟩, fun hno => ?_⟩
    cases hno
  told := by
    refine ⟨fun _ => ⟨rfl, List.not_mem_nil⟩, fun before after heq => ?_, fun before after heq => ?_⟩
    · cases before <;> cases heq
    · cases before <;> cases heq

/-- All steps of a run without failures keep the channel sound. -/
theorem Sound.run {actions : List ChannelAction} :
    ∀ {c : Channel} {trace : List PipeAction}, c.Sound trace → c.staysCalm actions = true →
      c.run? actions = some c' → ∃ trace', c'.Sound trace' := by
  induction actions with
  | nil =>
    intro c trace h _ hrun
    cases hrun
    exact ⟨trace, h⟩
  | cons action more ih =>
    intro c trace h hcalm hrun
    obtain ⟨c₁, hstep, hrest⟩ := Option.bind_eq_some_iff.mp hrun
    simp only [staysCalm, hstep, Bool.and_eq_true] at hcalm
    obtain ⟨⟨-, hdies⟩, hlater⟩ := hcalm
    rw [Bool.not_eq_true'] at hdies
    obtain ⟨trace', hnext⟩ := h.step hstep (isCalm_of_staysCalm hlater) hdies
    exact ih hnext hlater hrest

/-! ### What the user has been told before the close -/

/-- When the user has been told the close, the host has sent its own, and all its exits before that have
been told to the user before. -/
theorem Sound.told_before_close (h : c.Sound trace) {told later : List UserMessage}
    (heq : c.passed.toUser = told ++ .close :: later) :
    ∃ sent unread, c.passed.fromHost = sent ++ .close :: unread ∧ HostMessage.close ∉ sent ∧
      exitsTold told = exitsSent sent := by
  obtain ⟨seen, hgathered⟩ := h.gathered
  obtain ⟨hend, htold⟩ := h.told.told told later heq
  obtain ⟨hclosed, htakings⟩ := hgathered.ended hend
  obtain ⟨sent, rfl, hsent⟩ := hgathered.closed hclosed
  have hexits : exitsSent (sent ++ [.close]) = exitsSent sent := by
    rw [exitsSent_snoc]
    exact List.append_nil _
  refine ⟨sent, c.inbox, ?_, hsent, ?_⟩
  · have hread : c.passed.fromHost = sent ++ [.close] ++ c.inbox := hgathered.read
    rw [hread, List.append_assoc]
    rfl
  -- What the pipe has taken is what the owner has read, and what it has sent is what it has taken.
  · rw [h.pipe.takings_of_ended hend, hexits] at htakings
    have hsendings : sendings .outbound trace = (exitsSent sent).map .ofRequest := by
      have hmaps := List.append_cancel_right htakings
      rw [← List.map_map] at hmaps
      exact (List.map_inj_right fun _ _ heq => Option.some.inj heq).mp hmaps
    rw [htold, exitsPassed, hsendings, List.map_map]
    exact filter_exits sent

end Channel

/-- If no task of a pipe fails, then when the pipe begins to close a side, that side has been told
everything that comes from the other one, and it is told nothing more from then on. And if no task fails
in a relayed channel, then all exits that the host has sent before its close have been told to the user
before the user's channel is closed. -/
theorem closing_comes_last :
    (∀ {recording : PipeRecording} {actions : List PipeAction} {p : Pipe},
      Pipe.run? { recording } actions = some p → (∀ action ∈ actions, action.fails = false) →
      ∀ side,
        (∀ before action after p₁ p₂, actions = before ++ action :: after →
          Pipe.run? { recording } before = some p₁ → p₁.step? action = some p₂ →
          p₁.closed side = false → p₂.closed side = true → Complete side before) ∧
        (p.closed side = true → Complete side actions)) ∧
    ∀ {streams : Recording.SessionStreams} {actions : List ChannelAction} {c : Channel},
      (Channel.start streams).run? actions = some c →
      (Channel.start streams).staysCalm actions = true →
      ∀ {told later : List UserMessage}, c.passed.toUser = told ++ .close :: later →
        ∃ sent unread, c.passed.fromHost = sent ++ .close :: unread ∧ HostMessage.close ∉ sent ∧
          exitsTold told = exitsSent sent := by
  refine ⟨fun hrun hok side => Pipe.complete_of_closing hrun hok side, fun hrun hcalm => ?_⟩
  intro told later heq
  obtain ⟨trace, hsound⟩ := (Channel.sound_start _).run hcalm hrun
  exact hsound.told_before_close heq

/-- A host that sends a block and an exit status and closes its channel, seen at the pipe and seen by the
user. -/
theorem closing_comes_last_exit :
    let chunk : Chunk := { data := [104, 105] }
    let exit : Incoming := .ofRequest (.exitStatus 3)
    let actions : List PipeAction := [
      .read .outbound (.ok (some chunk)), .took .outbound (some exit),
      .wrote .outbound chunk (.ok ()), .sent .outbound exit (.ok true), .took .outbound none,
      .read .outbound (.ok none), .halfClosed .outbound (.ok ()), .reports (.data .outbound),
      .seesCompletion, .reports (.requests .outbound), .seesCompletion]
    let task (t : PipeTask) : ChannelAction := .task t (.ok ()) ⟨0, 0⟩
    let steps : List ChannelAction := [
      .host (.data chunk), .host (.exitStatus 3), .host .close, .read, .read, .read,
      task (.data .outbound), task (.requests .outbound), task (.data .outbound),
      task (.requests .outbound), task (.requests .outbound), task (.data .outbound),
      task (.data .outbound), .report (.data .outbound), .control .seesCompletion,
      .report (.requests .outbound), .control .seesCompletion, .control (.closed .inbound),
      .deliver, .deliver, .deliver, .deliver]
    (∃ p, Pipe.run? {} actions = some p ∧ (∀ action ∈ actions, action.fails = false) ∧
      p.closed .inbound = true ∧ Complete .inbound actions) ∧
    ∃ c, (Channel.start {}).run? steps = some c ∧ (Channel.start {}).staysCalm steps = true ∧
      c.passed.toUser = [.data chunk, .exitStatus 3, .eof] ++ .close :: [] ∧
      ∃ sent unread, c.passed.fromHost = sent ++ .close :: unread ∧ HostMessage.close ∉ sent ∧
        exitsTold [.data chunk, .exitStatus 3, .eof] = exitsSent sent := by
  intro chunk exit actions task steps
  constructor
  · have hok : ∀ action ∈ actions, action.fails = false := by decide
    obtain ⟨p, hrun, hclosed⟩ : ∃ p, Pipe.run? {} actions = some p ∧ p.closed .inbound = true :=
      ⟨_, rfl, rfl⟩
    exact ⟨p, hrun, hok, hclosed, (closing_comes_last.1 hrun hok .inbound).2 hclosed⟩
  · have hcalm : (Channel.start {}).staysCalm steps = true := by decide +kernel
    have htold : ((Channel.start {}).run? steps).map (·.passed.toUser) =
        some ([.data chunk, .exitStatus 3, .eof] ++ .close :: []) := by decide +kernel
    obtain ⟨c, hrun, htold⟩ := Option.map_eq_some_iff.mp htold
    exact ⟨c, hrun, hcalm, htold, closing_comes_last.2 hrun hcalm htold⟩

end Gatehouse.Relay
