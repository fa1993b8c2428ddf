import Gatehouse.Proofs.Relay.DataWay

/-!
# Data passes through a relay unchanged

`data_passes_unchanged`: at every moment what the host has received, and what was written to the user, is
a beginning of what the other side has sent before the end of its data. When the pipe returns a success
nothing is missing, unless the host has closed the channel before it was sent everything.

Proof. Every step keeps `Channel.Relays`. On each side the blocks are taken in order (`Feeding.Holds`,
`Hosting.Holds`), and what a copying task has moved is what it has taken, but for the block that it holds
(`Pipe.Copied`); the steps in which the pipe takes none (`alone`), those of the pipe (`along`) and the
dropping of what ended tasks held (`dropEnded`) are looked at one after the other. A write to the host is
dropped without an error only when the channel is closed. From here that is done only after the copying
task has ended (`Channel.ClosesLate`), so a task that is still writing finds that the host has closed it.
The pipe returns a success only if both copying tasks have reported one, which they do only after they
have come to the end (`Pipe.Through`).
-/

namespace Gatehouse.Relay

/-! ### What passes -/

/-- The bytes of a block, and whether it is extended data. -/
def Chunk.form (chunk : Chunk) : Bytes × Bool :=
  (chunk.data, chunk.ext.isSome)

/-- A lane keeps the form of what it carries. -/
theorem form_carry (chunk : Chunk) : ((Lane.ofChunk chunk).carry chunk.data).form = chunk.form := by
  unfold Lane.ofChunk Chunk.form
  cases hext : chunk.ext <;> rfl

/-- The host has received some blocks in their order, and all of them unless it was cut short. -/
structure Sent (cut : Prop) (received blocks : List Chunk) : Prop where
  past : received.map Chunk.form <+: blocks.map Chunk.form
  all : ¬ cut → received.map Chunk.form = blocks.map Chunk.form

section

variable {cut cut' : Prop} {received blocks : List Chunk}

theorem Sent.weaken (h : Sent cut received blocks) (hcut : cut → cut') : Sent cut' received blocks :=
  ⟨h.past, fun hnot => h.all (mt hcut hnot)⟩

theorem Sent.write (h : Sent cut received blocks) (hopen : ¬ cut) (chunk : Chunk) :
    Sent cut (received ++ [(Lane.ofChunk chunk).carry chunk.data]) (blocks ++ [chunk]) := by
  have hforms : (received ++ [(Lane.ofChunk chunk).carry chunk.data]).map Chunk.form =
      (blocks ++ [chunk]).map Chunk.form := by
    rw [List.map_append, List.map_append, h.all hopen, List.map_singleton, List.map_singleton,
      form_carry]
  exact ⟨hforms ▸ List.prefix_refl _, fun _ => hforms⟩

theorem Sent.drop (h : Sent cut received blocks) (hcut : cut) (chunk : Chunk) :
    Sent cut received (blocks ++ [chunk]) := by
  refine ⟨h.past.trans ?_, fun hnot => absurd hcut hnot⟩
  rw [List.map_append]
  exact List.prefix_append _ _

end

/-- The block of data that a message to the user is. -/
def UserMessage.data? : UserMessage → Option Chunk
  | .data chunk => some chunk
  | _ => none

namespace Channel

variable {c c' c₁ : Channel} {action : ChannelAction} {a : PipeAction} {p : Pipe} {cut : Prop}
  {written taken : List Chunk} {seen : List HostMessage}

/-- The blocks of data that a step writes to the user. -/
def posted (c c' : Channel) : List Chunk :=
  (c'.outbox.drop c.outbox.length).filterMap UserMessage.data?

/-- The blocks of data that some steps write to the user. -/
def writtenToUser (c : Channel) : List ChannelAction → List Chunk
  | [] => []
  | action :: more =>
    match c.step? action with
    | some c' => c.posted c' ++ c'.writtenToUser more
    | none => []

/-- The host has closed the channel while the user's data is still being copied. -/
def CutShort (c : Channel) : Prop :=
  c.owner.remoteClosed = true ∧ c.isOver (.data .inbound) = false

/-! ### Parts of a step -/

theorem takeRequest_data {f feed : Feed} {outcome : Taken Incoming} {refused : List FeedVerdict}
    (h : f.takeRequest = (feed, outcome, refused)) : feed.data = f.data := by
  unfold Feed.takeRequest at h
  split at h <;> cases h <;> rfl

theorem deliverVerdicts_eq (c : Channel) (verdicts : List FeedVerdict) :
    ∃ callback toUser told, callback.offered = c.callback.offered ∧
      c.deliverVerdicts verdicts =
        { c with callback, passed := { c.passed with toUser, verdicts := told } } := by
  rcases c.deliverVerdicts_cases verdicts with hsame | ⟨v, -, hcallback, hsettle⟩
  · exact ⟨_, _, _, rfl, hsame⟩
  · exact ⟨_, _, _, by rw [hcallback]; rfl, hsettle⟩

/-- Of what concerns data, only the queues that a copying task has left are dropped. -/
theorem dropEnded_eq (c : Channel) :
    ∃ callback feed demux toUser told, callback.offered = c.callback.offered ∧
      feed.data = (if c.isOver (.data .inbound) then c.feed.data.abandon else c.feed.data) ∧
      demux.data =
        (if c.isOver (.data .outbound) then c.owner.demux.data.abandon else c.owner.demux.data) ∧
      demux.held = c.owner.demux.held ∧
      c.dropEnded = { c with
        callback, feed
        owner := { c.owner with demux }
        passed := { c.passed with toUser, verdicts := told } } := by
  obtain ⟨feed, hfeed⟩ : ∃ feed, feed = (if c.isOver (.data .inbound) then c.feed.abandonData
      else c.feed) := ⟨_, rfl⟩
  obtain ⟨left, hleft⟩ : ∃ left, left = (if c.isOver (.requests .inbound) then feed.abandonRequests
      else (feed, [])) := ⟨_, rfl⟩
  obtain ⟨demux, hdemux⟩ : ∃ demux : Demux, demux = { c.owner.demux with
      data := if c.isOver (.data .outbound) then c.owner.demux.data.abandon else c.owner.demux.data
      requests := if c.isOver (.requests .outbound) then c.owner.demux.requests.abandon
        else c.owner.demux.requests } := ⟨_, rfl⟩
  have hdropped : c.dropEnded =
      { c with feed := left.1, owner := { c.owner with demux } }.deliverVerdicts left.2 := by
    rw [hleft, hfeed, hdemux]
    rfl
  have hdata : left.1.data = if c.isOver (.data .inbound) then c.feed.data.abandon else c.feed.data := by
    rw [hleft, hfeed]
    split_ifs <;> rfl
  obtain ⟨callback, toUser, told, hoffered, heq⟩ :=
    deliverVerdicts_eq { c with feed := left.1, owner := { c.owner with demux } } left.2
  refine ⟨callback, left.1, demux, toUser, told, hoffered, hdata, ?_, ?_, hdropped.trans heq⟩
  · rw [hdemux]
  · rw [hdemux]

theorem posted_of_le (h : c'.outbox.length ≤ c.outbox.length) : c.posted c' = [] := by
  rw [posted, List.drop_eq_nil_of_le h]
  rfl

theorem posted_snoc {message : UserMessage} (h : c'.outbox = c.outbox ++ [message]) :
    c.posted c' = message.data?.toList := by
  rw [posted, h, List.drop_left]
  cases hdata : message.data? <;> simp [hdata]

theorem posted_post? {message : UserMessage} {result : Except RelayError Unit}
    (h : c.post? message = some (c₁, result)) :
    (∃ e, result = .error e) ∧ c.posted c₁ = [] ∨
      result = .ok () ∧ c.posted c₁ = message.data?.toList := by
  rcases post?_cases h with ⟨rfl, herror⟩ | ⟨rfl, hok⟩
  · exact .inl ⟨herror, posted_of_le (Nat.le_refl _)⟩
  · exact .inr ⟨hok, posted_snoc rfl⟩

theorem posted_post?_other {message : UserMessage} {result : Except RelayError Unit}
    (h : c.post? message = some (c₁, result)) (hmessage : message.data? = none) : c.posted c₁ = [] := by
  rcases posted_post? h with ⟨-, hposted⟩ | ⟨-, hposted⟩
  · exact hposted
  · rw [hposted, hmessage]
    rfl

theorem posted_requestToUser? {request : Request} {result : Except RelayError Bool}
    (h : c.requestToUser? request = some (c₁, result)) : c.posted c₁ = [] := by
  have htold : ∀ message : UserMessage, message.data? = none →
      requestToUser?.told c message = some (c₁, result) → c.posted c₁ = [] := by
    intro message hmessage htold
    obtain ⟨⟨c₂, posted⟩, hpost, heq⟩ := Option.bind_eq_some_iff.mp htold
    cases heq
    exact posted_post?_other hpost hmessage
  unfold requestToUser? at h
  split at h
  · exact htold _ rfl h
  · exact htold _ rfl h
  · cases h
    exact posted_of_le (Nat.le_refl _)

/-- What the rest of a channel leaves as it is while it does its part in a step of the pipe. -/
structure Aside (c : Channel) (a : PipeAction) (c₁ : Channel) : Prop where
  pipe : c₁.pipe = c.pipe
  offered : c₁.callback.offered = c.callback.offered
  link : c₁.link = c.link
  inbox : c₁.inbox = c.inbox
  commands : c₁.commands = c.commands
  owner : ∃ demux, c₁.owner = { c.owner with demux }
  heard : c₁.passed.fromUser = c.passed.fromUser ∧ c₁.passed.fromHost = c.passed.fromHost
  toHost : a.worker? ≠ some (.data .inbound) →
    c₁.feed.data = c.feed.data ∧ c₁.passed.dataToHost = c.passed.dataToHost
  toUser : a.worker? ≠ some (.data .outbound) →
    c₁.owner.demux.data = c.owner.demux.data ∧ c₁.owner.demux.held = c.owner.demux.held ∧
      c.posted c₁ = []

theorem aside_of_prepares (h : Prepares c action a c₁) : Aside c a c₁ := by
  have hsame : ∀ {feed : Feed} {log : Recording.Log} {dataToHost : List Chunk} {halfCloses : Nat},
      (a.worker? ≠ some (.data .inbound) →
        feed.data = c.feed.data ∧ dataToHost = c.passed.dataToHost) →
      Aside c a { c with feed, log, passed := { c.passed with dataToHost, halfCloses } } :=
    fun htoHost => ⟨rfl, rfl, rfl, rfl, rfl, ⟨_, rfl⟩, ⟨rfl, rfl⟩, htoHost,
      fun _ => ⟨rfl, rfl, posted_of_le (Nat.le_refl _)⟩⟩
  have hposts : ∀ {outbox : List UserMessage},
      (a.worker? ≠ some (.data .outbound) → c.posted { c with outbox } = []) →
      Aside c a { c with outbox } :=
    fun hposted => ⟨rfl, rfl, rfl, rfl, rfl, ⟨_, rfl⟩, ⟨rfl, rfl⟩, fun _ => ⟨rfl, rfl⟩,
      fun hother => ⟨rfl, rfl, hposted hother⟩⟩
  have hdelivers : ∀ {feed : Feed} (verdicts : List FeedVerdict), feed.data = c.feed.data →
      Aside c a ({ c with feed }.deliverVerdicts verdicts) := by
    intro feed verdicts hdata
    obtain ⟨callback, toUser, told, hoffered, heq⟩ := deliverVerdicts_eq { c with feed } verdicts
    rw [heq]
    exact ⟨rfl, hoffered, rfl, rfl, rfl, ⟨_, rfl⟩, ⟨rfl, rfl⟩, fun _ => ⟨hdata, rfl⟩,
      fun _ => ⟨rfl, rfl, posted_of_le (Nat.le_refl _)⟩⟩
  cases h with
  | readFromUser | readEndFromUser => exact hsame fun hother => absurd rfl hother
  | recordFromUser hrecord | recordFromHost hrecord | recordCommand hrecord =>
    obtain ⟨log, rfl⟩ := record?_eq hrecord
    exact hsame fun _ => ⟨rfl, rfl⟩
  | @writeToHost writing now chunk _ _ hwrite =>
    obtain ⟨dataToHost, heq⟩ := c.writeToHost_eq chunk writing
    rw [hwrite] at heq
    cases heq
    exact hsame fun hother => absurd rfl hother
  | @halfCloseHost writing now _ _ hhalf =>
    obtain ⟨halfCloses, heq⟩ := c.halfCloseHost_eq writing
    rw [hhalf] at heq
    cases heq
    exact hsame fun _ => ⟨rfl, rfl⟩
  | writeToUser hpost | halfCloseUser hpost =>
    obtain ⟨outbox, rfl⟩ := post?_eq hpost
    exact hposts fun hother => absurd rfl hother
  | closeUser hpost =>
    have hposted := posted_post?_other hpost rfl
    obtain ⟨outbox, rfl⟩ := post?_eq hpost
    exact hposts fun _ => hposted
  | sendToUser hsend =>
    have hposted := posted_requestToUser? hsend
    obtain ⟨outbox, rfl⟩ := requestToUser?_eq hsend
    exact hposts fun _ => hposted
  | takeFromUser htake | takeEndFromUser htake => exact hdelivers _ (takeRequest_data htake)
  | replyToUser hreply =>
    cases hreply
    exact hdelivers _ rfl
  | readFromHost | readEndFromHost =>
    exact ⟨rfl, rfl, rfl, rfl, rfl, ⟨_, rfl⟩, ⟨rfl, rfl⟩, fun _ => ⟨rfl, rfl⟩,
      fun hother => absurd rfl hother⟩
  | takeFromHost | takeEndFromHost | closeHost | collect =>
    exact ⟨rfl, rfl, rfl, rfl, rfl, ⟨_, rfl⟩, ⟨rfl, rfl⟩, fun _ => ⟨rfl, rfl⟩,
      fun _ => ⟨rfl, rfl, posted_of_le (Nat.le_refl _)⟩⟩
  | _ => exact hsame fun _ => ⟨rfl, rfl⟩

/-! ### Tasks that come to their end -/

theorem isOver_data {source : Side} : c.isOver (.data source) = true ↔
    (∃ result, c.pipe.copying source = .reporting result) ∨ c.pipe.copying source = .gone := by
  simp only [isOver, Pipe.isGone, Pipe.report?]
  cases c.pipe.copying source <;> simp

theorem isOver_of_step (hstep : c.pipe.step? a = some p) {source : Side}
    (h : c.isOver (.data source) = true) : isOver { c with pipe := p } (.data source) = true := by
  have hstep := Pipe.step_of_step? hstep
  rw [isOver_data] at h ⊢
  by_cases hmine : a.worker? = some (.data source)
  · -- A task that has come to its end does nothing.
    cases hstep with
    | readChunk hstate | readEnd hstate | readError hstate | recorded hstate | wrote hstate
    | writeError hstate | halfClosed hstate =>
      cases hmine
      rcases h with ⟨result, hno⟩ | hno <;> cases hstate.symm.trans hno
    | _ => cases hmine
  · rcases Pipe.unmoved_of_step hstep hmine with hsame | hgone
    · rw [show p.copying source = c.pipe.copying source from hsame]
      exact h
    · exact .inr (Pipe.isGone_data.mp hgone)

theorem active_of_step (hstep : c.pipe.step? a = some p) {source : Side}
    (h : (!isOver { c with pipe := p } (.data source)) = true) :
    (!c.isOver (.data source)) = true := by
  rw [Bool.not_eq_true'] at h ⊢
  by_contra hover
  rw [Bool.not_eq_false] at hover
  exact absurd ((isOver_of_step hstep hover).symm.trans h) nofun

theorem active_of_copying {source : Side} {state : Copying} (hstate : c.pipe.copying source = state)
    (hworks : (∀ result, state ≠ .reporting result) ∧ state ≠ .gone) :
    (!c.isOver (.data source)) = true := by
  rw [Bool.not_eq_true', ← Bool.not_eq_true, isOver_data, hstate]
  rintro (⟨result, hno⟩ | hno)
  · exact hworks.1 result hno
  · exact hworks.2 hno

/-! ### Who closes the channel to the host -/

/-- The channel to the host is closed from here. -/
def IsClosing (c : Channel) : Prop :=
  (∃ call, .close call ∈ c.commands) ∨ c.owner.localClosed = true ∨ c.owner.ended = true

/-- That is done only after all data of the user has been copied. -/
structure ClosesLate (c : Channel) : Prop where
  orderly : c.pipe.Orderly
  earned : c.pipe.Earned
  closing : c.IsClosing → c.pipe.isGone (.data .inbound) = true

theorem Aside.isClosing (h : Aside c a c₁) (hclosing : c₁.IsClosing) : c.IsClosing := by
  obtain ⟨demux, howner⟩ := h.owner
  rw [IsClosing, h.commands, howner] at hclosing
  exact hclosing

theorem ClosesLate.of_eq (h : ClosesLate c) (hpipe : c'.pipe = c.pipe)
    (hclosing : c'.IsClosing → c.IsClosing) : ClosesLate c' := by
  refine ⟨hpipe ▸ h.orderly, hpipe ▸ h.earned, fun hclosed => ?_⟩
  rw [hpipe]
  exact h.closing (hclosing hclosed)

theorem ClosesLate.effects (h : ClosesLate c) (effects : List OwnerEffect) :
    ClosesLate (effects.foldl effect c) := by
  obtain ⟨answered, closeAnswered, requestsToHost, closes, heq⟩ := effects_eq effects c
  rw [heq]
  exact h.of_eq rfl id

/-- Nobody can ask anything of the owner only after all tasks have ended. -/
theorem ClosesLate.drained (h : ClosesLate c) (hgone : c.callersGone = true) (source : Side) :
    c.pipe.Drained source := by
  simp only [callersGone, Bool.and_eq_true] at hgone
  obtain ⟨result, hresult⟩ := Option.isSome_iff_exists.mp hgone.1.2
  exact h.orderly.closes.ending (.inr ⟨result, Pipe.control_of_result? hresult⟩) source

theorem ClosesLate.alone (h : ClosesLate c) (hstep : Alone c action c') : ClosesLate c' := by
  cases hstep with
  | @user input =>
    obtain ⟨callback, nextAsker, feed, link, fromUser, toUser, verdicts, heq⟩ := c.handles_call input
    rw [heq]
    exact h.of_eq rfl id
  | handler hresume =>
    obtain ⟨callback, nextAsker, feed, link, fromUser, toUser, verdicts, rfl⟩ :=
      handles_resume? hresume
    exact h.of_eq rfl id
  | deliver | lost | host | write => exact h.of_eq rfl id
  | ask =>
    refine h.of_eq rfl fun hclosing => hclosing.imp_left fun ⟨call, hmem⟩ => ⟨call, ?_⟩
    rcases List.mem_append.mp hmem with hmem | hmem
    · exact hmem
    · cases List.mem_singleton.mp hmem
  | askToClose hcontrol =>
    have hdrained := h.orderly.closes.closing _ _ hcontrol .outbound List.mem_cons_self
    exact ⟨h.orderly, h.earned, fun _ => hdrained.1⟩
  | release hstep =>
    obtain ⟨-, -, -, rfl, rfl⟩ := Owner.step?_release hstep
    exact h.of_eq rfl id
  | @read message inbox owner effects hinbox hstep =>
    obtain ⟨-, -, -, hreceive⟩ := Owner.step?_message hstep
    obtain ⟨hlocal, hended, -⟩ := c.owner.receive_keeps message
    rw [hreceive] at hlocal hended
    refine ClosesLate.effects ?_ effects
    refine h.of_eq rfl fun hclosing => ?_
    rcases hclosing with hasked | hclosed | hclosed
    · exact .inl hasked
    · exact .inr (.inl (hlocal.symm.trans hclosed))
    · exact .inr (.inr (hended.symm.trans hclosed))
  | @obey command commands sending owner effects hcommands hstep =>
    obtain ⟨-, hobey⟩ := Owner.step?_command hstep
    obtain ⟨hlocal, hended⟩ := c.owner.obey_closes sending command
    rw [hobey] at hlocal hended
    refine ClosesLate.effects ?_ effects
    refine h.of_eq rfl fun hclosing => ?_
    rcases hclosing with ⟨call, hasked⟩ | hclosed | hclosed
    · exact .inl ⟨call, hcommands ▸ List.mem_cons_of_mem _ hasked⟩
    · rcases hlocal hclosed with hclosed | ⟨call, rfl⟩
      · exact .inr (.inl hclosed)
      · exact .inl ⟨call, hcommands ▸ List.mem_cons_self⟩
    · exact .inr (.inr (hended.symm.trans hclosed))
  | @finish owner effects hgone hstep =>
    have hfinished : ClosesLate { c with owner } :=
      ⟨h.orderly, h.earned, fun _ => (h.drained hgone .inbound).1⟩
    exact hfinished.effects effects

theorem ClosesLate.along (h : ClosesLate c) (hprepares : Prepares c action a c₁)
    (hstep : c₁.pipe.step? a = some p) : ClosesLate { c₁ with pipe := p } := by
  have haside := aside_of_prepares hprepares
  have hstep := Pipe.step_of_step? hstep
  rw [haside.pipe] at hstep
  exact ⟨h.orderly.step hstep, h.earned.step hstep,
    fun hclosed => Pipe.isGone_of_step hstep (h.closing (haside.isClosing hclosed))⟩

theorem ClosesLate.dropEnded (h : ClosesLate c) : ClosesLate c.dropEnded := by
  obtain ⟨callback, feed, demux, toUser, told, -, -, -, -, heq⟩ := c.dropEnded_eq
  rw [heq]
  exact h.of_eq rfl id

/-! ### The user's data -/

def feeding (c : Channel) : Feeding where
  offered := c.callback.offered
  link := c.link
  data := c.feed.data
  fromUser := c.passed.fromUser
  active := !c.isOver (.data .inbound)

/-- What was taken of the user's data was taken in order and has been sent to the host. -/
structure Feeds (c : Channel) (cut : Prop) (taken : List Chunk) : Prop where
  way : c.feeding.Holds taken
  copied : c.pipe.Copied .inbound (Sent cut c.passed.dataToHost)
    (Feeding.Done c.passed.fromUser c.link taken) taken
  closed : cut → c.owner.remoteClosed = true

theorem Feeds.move (h : Feeds c cut taken) (hpipe : c'.pipe = c.pipe)
    (hdata : c'.passed.dataToHost = c.passed.dataToHost)
    (hclosed : c.owner.remoteClosed = true → c'.owner.remoteClosed = true)
    (hway : c'.feeding.Holds taken) (hdone : Feeding.Done c.passed.fromUser c.link taken →
      Feeding.Done c'.passed.fromUser c'.link taken) : Feeds c' cut taken := by
  refine ⟨hway, ?_, fun hcut => hclosed (h.closed hcut)⟩
  rw [hpipe, hdata]
  exact h.copied.imp (fun _ => id) hdone

theorem Feeds.of_eq (h : Feeds c cut taken) (hpipe : c'.pipe = c.pipe)
    (hfeeding : c'.feeding = c.feeding) (hdata : c'.passed.dataToHost = c.passed.dataToHost)
    (hclosed : c.owner.remoteClosed = true → c'.owner.remoteClosed = true) : Feeds c' cut taken :=
  have hdone : Feeding.Done c.passed.fromUser c.link taken →
      Feeding.Done c'.feeding.fromUser c'.feeding.link taken := fun hdone => hfeeding ▸ hdone
  h.move hpipe hdata hclosed (hfeeding ▸ h.way) hdone

theorem Feeds.effects (h : Feeds c cut taken) (effects : List OwnerEffect) :
    Feeds (effects.foldl effect c) cut taken := by
  obtain ⟨answered, closeAnswered, requestsToHost, closes, heq⟩ := effects_eq effects c
  rw [heq]
  exact h.of_eq rfl rfl rfl id

theorem Feeds.handle (h : Feeds c cut taken) (hhandles : Handles c c') {s : Feeding}
    (hfeeding : c'.feeding = s) (hway : s.Holds taken)
    (hdone : Feeding.Done c.passed.fromUser c.link taken → Feeding.Done s.fromUser s.link taken) :
    Feeds c' cut taken := by
  subst hfeeding
  obtain ⟨callback, nextAsker, feed, link, fromUser, toUser, verdicts, rfl⟩ := hhandles
  exact h.move rfl rfl id hway hdone

theorem feeding_ask (c : Channel) (asker : AskId) (request : Request) :
    (c.ask asker request).feeding = { c.feeding with offered := [] } := by
  have hdata : (c.feed.ask asker request).1.data = c.feed.data := by
    unfold Feed.ask
    dsimp only
    split
    · rfl
    · split <;> rfl
  unfold ask
  split
  · rfl
  all_goals
    next heq =>
      rw [heq] at hdata
      simp only [settle, feeding, Callback.offered, isOver]
      rw [← hdata]

theorem feeding_offer (c : Channel) (chunk : Chunk) : (c.offer chunk).feeding =
    { c.feeding with
      data := (c.feed.data.push chunk).1, offered := (c.feed.data.push chunk).2.toList } := by
  rcases c.feed.data.push_cases chunk with ⟨-, hpush⟩ | ⟨-, -, hpush⟩ | ⟨-, -, hpush | hpush⟩ <;>
    simp only [offer, Feed.offer, hpush] <;> rfl

/-- The handler is called. -/
theorem Feeds.call (h : Feeds c cut taken) (hidle : c.callback = .idle) (hlink : c.link ≠ .gone)
    (input : UserInput) : Feeds (c.call input) cut taken := by
  have hfree : c.feeding.offered = [] := by
    show c.callback.offered = []
    rw [hidle]
    rfl
  have hlink : c.feeding.link ≠ .gone := hlink
  have hdone : ∀ {link}, Feeding.Done c.passed.fromUser c.link taken →
      Feeding.Done (c.passed.fromUser ++ [input]) link taken := fun hdone => hdone.input hlink input
  have hhandles := c.handles_call input
  cases input with
  | data chunk =>
    have hoffered := (h.way.inputData hfree chunk).offer rfl
    exact h.handle hhandles (feeding_offer _ chunk) hoffered hdone
  | eof =>
    have hended : UserInput.eof.data? = some none := rfl
    exact h.handle hhandles rfl (h.way.inputEnd hfree hlink hended _) hdone
  | request request =>
    have hsame : (c.call (.request request)).feeding =
        { c.feeding with fromUser := c.passed.fromUser ++ [.request request] } :=
      (feeding_ask _ _ request).trans (by rw [← hfree]; rfl)
    have hother : (UserInput.request request).data? = none := rfl
    exact h.handle hhandles hsame (h.way.inputOther hother) hdone
  | close =>
    have hended : UserInput.close.data? = some none := rfl
    exact h.handle hhandles rfl (h.way.inputEnd hfree hlink hended _) hdone

/-- The handler goes on where it waited for room. -/
theorem Feeds.resume (h : Feeds c cut taken) (hresume : c.resume? = some c') : Feeds c' cut taken := by
  have hhandles := handles_resume? hresume
  unfold resume? at hresume
  split at hresume
  · next chunk hcallback =>
    split_ifs at hresume
    cases hresume
    have hoffered : c.feeding.offered = [chunk] := by
      show c.callback.offered = [chunk]
      rw [hcallback]
      rfl
    exact h.handle hhandles (feeding_offer c chunk) (h.way.offer hoffered) id
  · next asker request hcallback =>
    split_ifs at hresume
    cases hresume
    have hfree : c.feeding.offered = [] := by
      show c.callback.offered = []
      rw [hcallback]
      rfl
    have hsame : (c.ask asker request).feeding = c.feeding :=
      (feeding_ask c asker request).trans (by rw [← hfree])
    exact h.handle hhandles hsame h.way id
  · cases hresume
  · cases hresume

theorem link_of_send {link link' : UserLink} {message : UserMessage} {seen : List UserMessage}
    {sent : Except RelayError Unit} (hsend : link.send message = (link', seen, sent)) :
    link = .gone → link' = .gone := by
  rintro rfl
  cases hsend
  rfl

theorem Feeds.alone (h : Feeds c cut taken) (hstep : Alone c action c') : Feeds c' cut taken := by
  cases hstep with
  | @user input hidle hlink => exact h.call hidle hlink input
  | handler hresume => exact h.resume hresume
  | deliver _ _ hsend =>
    have hgone := link_of_send hsend
    exact h.move rfl rfl id (h.way.relink hgone) fun hdone => hdone.relink hgone
  | lost => exact h.move rfl rfl id h.way.lost fun hdone => ⟨.inr rfl, hdone.all⟩
  | ask | askToClose | host | write => exact h.of_eq rfl rfl rfl id
  | release hstep =>
    obtain ⟨-, -, -, rfl, rfl⟩ := Owner.step?_release hstep
    exact h.of_eq rfl rfl rfl id
  | @read message inbox owner effects hinbox hstep =>
    obtain ⟨-, -, -, hreceive⟩ := Owner.step?_message hstep
    obtain ⟨-, -, hclosed⟩ := c.owner.receive_keeps message
    rw [hreceive] at hclosed
    have hread : Feeds { c with inbox, owner } cut taken := h.of_eq rfl rfl rfl hclosed
    exact hread.effects effects
  | @obey command commands sending owner effects hcommands hstep =>
    obtain ⟨-, hobey⟩ := Owner.step?_command hstep
    obtain ⟨-, hclosed⟩ := c.owner.obey_keeps sending command
    rw [hobey] at hclosed
    have hobeyed : Feeds { c with commands, owner } cut taken := h.of_eq rfl rfl rfl hclosed.trans
    exact hobeyed.effects effects
  | @finish owner effects hgone hstep =>
    obtain ⟨-, rfl, -⟩ := Owner.step?_finish hstep
    refine Feeds.effects ?_ effects
    exact h.of_eq rfl rfl rfl id

theorem Aside.feeding (h : Aside c a c₁) (hother : a.worker? ≠ some (.data .inbound)) :
    c₁.feeding = c.feeding := by
  obtain ⟨hdata, -⟩ := h.toHost hother
  simp only [Channel.feeding, isOver, h.pipe, h.offered, h.link, h.heard.1, hdata]

theorem writeToHost_cases {chunk : Chunk} {writing : Except String Unit}
    {result : Except RelayError Unit} (h : c.writeToHost chunk writing = (c₁, result)) :
    (c.owner.dropsWrites = true ∧ c₁ = c ∧ result = .ok ()) ∨
      (∃ e, c₁ = c ∧ result = .error e) ∨
      (c.owner.dropsWrites = false ∧ result = .ok () ∧ c₁ = { c with
        passed := { c.passed with
          dataToHost := c.passed.dataToHost ++ [(Lane.ofChunk chunk).carry chunk.data] } }) := by
  unfold writeToHost at h
  split at h
  · next hdrops =>
    cases h
    exact .inl ⟨hdrops, rfl, rfl⟩
  · next hdrops =>
    split at h
    · cases h
      exact .inr (.inl ⟨_, rfl, rfl⟩)
    · cases h
      exact .inr (.inr ⟨Bool.eq_false_iff.mpr hdrops, rfl, rfl⟩)

/-- A write is dropped only where the host has closed the channel, since from here the channel is closed
only after the copying task has ended. -/
theorem ClosesLate.cutShort (h : ClosesLate c) {chunk : Chunk}
    (hstate : c.pipe.copying .inbound = .writing chunk) (hdrops : c.owner.dropsWrites = true) :
    c.CutShort := by
  have hopen : ¬ c.IsClosing := by
    intro hclosing
    have hgone := Pipe.isGone_data.mp (h.closing hclosing)
    cases hstate.symm.trans hgone
  have hactive : (!c.isOver (.data .inbound)) = true := active_of_copying hstate ⟨nofun, nofun⟩
  rw [Bool.not_eq_true'] at hactive
  refine ⟨?_, hactive⟩
  simp only [Owner.dropsWrites, Owner.isClosed, Bool.or_eq_true] at hdrops
  rcases hdrops with (hremote | hlocal) | hended
  · exact hremote
  · exact absurd (.inr (.inl hlocal)) hopen
  · exact absurd (.inr (.inr hended)) hopen

/-- The copying task writes a block to the host. -/
theorem Feeds.writes (h : Feeds c cut taken) (hlate : ClosesLate c) (hcut : c.CutShort → cut)
    {chunk : Chunk} {writing : Except String Unit} {result : Except RelayError Unit}
    (hwrite : c.writeToHost chunk writing = (c₁, result))
    (hstep : c₁.pipe.step? (.wrote .inbound chunk result) = some p) :
    Feeds { c₁ with pipe := p } cut taken := by
  rcases writeToHost_cases hwrite with ⟨hdrops, rfl, rfl⟩ | ⟨e, rfl, rfl⟩ | ⟨hdrops, rfl, rfl⟩
  · -- The block is lost without an error, but only because the host has cut the data short.
    have hpipe := Pipe.step_of_step? hstep
    have hstate : c₁.pipe.copying .inbound = .writing chunk := by
      cases hpipe with
      | wrote hstate => exact hstate
    have hshort : cut := hcut (hlate.cutShort hstate hdrops)
    refine ⟨h.way.stop (active_of_step hstep), ?_, h.closed⟩
    exact h.copied.writes hlate.orderly hpipe (fun _ before hsent => hsent.drop hshort chunk) nofun
  · refine ⟨h.way.stop (active_of_step hstep), ?_, h.closed⟩
    exact h.copied.writes hlate.orderly (Pipe.step_of_step? hstep) nofun fun _ _ before hsent => hsent
  · -- Nothing was dropped before: the host would have closed the channel, and so this write would be too.
    have hopen : ¬ cut := by
      intro hshort
      rw [Owner.dropsWrites, Owner.isClosed, h.closed hshort] at hdrops
      cases hdrops
    refine ⟨h.way.stop (active_of_step hstep), ?_, h.closed⟩
    exact h.copied.writes hlate.orderly (Pipe.step_of_step? hstep)
      (fun _ before hsent => hsent.write hopen chunk) nofun

theorem takeData_take {f feed : Feed} {outcome : Taken Chunk} (h : f.takeData = (feed, outcome)) :
    f.data.take = (feed.data, outcome) := by
  unfold Feed.takeData at h
  cases h
  rfl

/-- The task that copies the user's data takes a step. -/
theorem Feeds.copies (h : Feeds c cut taken) (hlate : ClosesLate c) (hcut : c.CutShort → cut)
    (hprepares : Prepares c action a c₁) (hstep : c₁.pipe.step? a = some p)
    (hmine : a.worker? = some (.data .inbound)) : ∃ taken', Feeds { c₁ with pipe := p } cut taken' := by
  have hpipe := Pipe.step_of_step? hstep
  cases hprepares with
  | @readFromUser writing now feed chunk htake =>
    have hactive : c.feeding.active = true := by
      cases hpipe with
      | readChunk hstate => exact active_of_copying hstate ⟨nofun, nofun⟩
    have htaken := h.way.take hactive (takeData_take htake)
    exact ⟨_, htaken.stop (active_of_step hstep), h.copied.readsChunk hlate.orderly hpipe, h.closed⟩
  | @readEndFromUser writing now feed htake =>
    have hactive : c.feeding.active = true := by
      cases hpipe with
      | readEnd hstate => exact active_of_copying hstate ⟨nofun, nofun⟩
    have htake := takeData_take htake
    have hdone := h.way.tookEnd hactive htake
    have hway : Feeding.Holds { c.feeding with data := feed.data } taken := by
      rw [(Queue.take_ended htake).1]
      exact h.way
    exact ⟨taken, hway.stop (active_of_step hstep), h.copied.readsEnd hpipe hdone, h.closed⟩
  | recordFromUser hrecord =>
    obtain ⟨log, rfl⟩ := record?_eq hrecord
    exact ⟨taken, h.way.stop (active_of_step hstep), h.copied.records hlate.orderly hpipe, h.closed⟩
  | writeToHost hwrite => exact ⟨taken, h.writes hlate hcut hwrite hstep⟩
  | @halfCloseHost writing now _ _ hhalf =>
    obtain ⟨halfCloses, heq⟩ := c.halfCloseHost_eq writing
    rw [hhalf] at heq
    cases heq
    exact ⟨taken, h.way.stop (active_of_step hstep), h.copied.halfCloses hpipe, h.closed⟩
  | _ => cases hmine

/-- A step that is not one of the task that copies the user's data. -/
theorem Feeds.follow (h : Feeds c cut taken) (hstep : c.pipe.step? a = some p)
    (hother : a.worker? ≠ some (.data .inbound)) : Feeds { c with pipe := p } cut taken := by
  have hrests := h.copied.rests (Pipe.step_of_step? hstep) hother
  exact ⟨h.way.stop (active_of_step hstep), hrests, h.closed⟩

theorem Feeds.along (h : Feeds c cut taken) (hlate : ClosesLate c) (hcut : c.CutShort → cut)
    (hprepares : Prepares c action a c₁) (hstep : c₁.pipe.step? a = some p) :
    ∃ taken', Feeds { c₁ with pipe := p } cut taken' := by
  by_cases hmine : a.worker? = some (.data .inbound)
  · exact h.copies hlate hcut hprepares hstep hmine
  · have haside := aside_of_prepares hprepares
    obtain ⟨demux, howner⟩ := haside.owner
    have hprepared : Feeds c₁ cut taken :=
      h.of_eq haside.pipe (haside.feeding hmine) (haside.toHost hmine).2 (by rw [howner]; exact id)
    exact ⟨taken, hprepared.follow hstep hmine⟩

theorem Feeds.dropEnded (h : Feeds c cut taken) : Feeds c.dropEnded cut taken := by
  obtain ⟨callback, feed, demux, toUser, told, hoffered, hdata, -, -, heq⟩ := c.dropEnded_eq
  rw [heq]
  refine h.move rfl rfl id ?_ id
  have hfeeding : feeding { c with
      callback, feed
      owner := { c.owner with demux }
      passed := { c.passed with toUser, verdicts := told } } = { c.feeding with data := feed.data } := by
    simp only [feeding, hoffered, isOver]
  rw [hfeeding, hdata]
  split_ifs with hover
  · have hstopped : c.feeding.active = false := by
      show (!c.isOver (.data .inbound)) = false
      rw [hover]
      rfl
    exact h.way.abandon hstopped
  · exact h.way

/-! ### The host's data -/

def hosting (c : Channel) : Hosting where
  data := c.owner.demux.data
  held := c.owner.demux.held
  inbox := c.inbox
  fromHost := c.passed.fromHost
  active := !c.isOver (.data .outbound)

/-- What was taken of the data that the owner has read was taken in order and has been written to the
user. -/
structure Hosts (c : Channel) (written : List Chunk) (seen : List HostMessage) (taken : List Chunk) :
    Prop where
  way : c.hosting.Holds seen taken
  copied : c.pipe.Copied .outbound (written = ·) (Hosting.Done c.passed.fromHost taken) taken

theorem Hosts.move {seen' : List HostMessage} (h : Hosts c written seen taken)
    (hpipe : c'.pipe = c.pipe) (hway : c'.hosting.Holds seen' taken)
    (hdone : Hosting.Done c.passed.fromHost taken → Hosting.Done c'.passed.fromHost taken) :
    Hosts c' written seen' taken := by
  refine ⟨hway, ?_⟩
  rw [hpipe]
  exact h.copied.imp (fun _ => id) hdone

theorem Hosts.of_eq (h : Hosts c written seen taken) (hpipe : c'.pipe = c.pipe)
    (hhosting : c'.hosting = c.hosting) : Hosts c' written seen taken :=
  have hdone : Hosting.Done c.passed.fromHost taken → Hosting.Done c'.hosting.fromHost taken :=
    fun hdone => hhosting ▸ hdone
  h.move hpipe (hhosting ▸ h.way) hdone

theorem Hosts.handle (h : Hosts c written seen taken) (hhandles : Handles c c') :
    Hosts c' written seen taken ∧ c.posted c' = [] := by
  obtain ⟨callback, nextAsker, feed, link, fromUser, toUser, verdicts, rfl⟩ := hhandles
  exact ⟨h.of_eq rfl rfl, posted_of_le (Nat.le_refl _)⟩

theorem Hosts.effects (h : Hosts c' written seen taken) (effects : List OwnerEffect)
    (houtbox : c'.outbox = c.outbox) :
    (∃ seen', Hosts (effects.foldl effect c') written seen' taken) ∧
      c.posted (effects.foldl effect c') = [] := by
  obtain ⟨answered, closeAnswered, requestsToHost, closes, heq⟩ := effects_eq effects c'
  rw [heq]
  exact ⟨⟨seen, h.of_eq rfl rfl⟩, posted_of_le (Nat.le_of_eq (congrArg List.length houtbox))⟩

theorem hosting_release (c : Channel) (hblocked : c.owner.demux.isBlocked = true)
    (h : c.hosting.Holds seen taken) :
    Hosting.Holds { c.hosting with
      data := c.owner.demux.release.data, held := c.owner.demux.release.held } seen taken := by
  obtain ⟨delivery, hheld⟩ := Option.isSome_iff_exists.mp hblocked
  simp only [Demux.release, hheld]
  cases delivery with
  | data chunk => exact h.release hheld
  | request incoming =>
    have hfree : heldData c.hosting.held = [] := by
      show heldData c.owner.demux.held = []
      rw [hheld]
      rfl
    exact h.rehold hfree (heldData_request _)

/-- What the owner does with a message of the host. -/
theorem hosting_receive {message : HostMessage} {inbox : List HostMessage}
    (hinbox : c.inbox = message :: inbox) (hblocked : c.owner.demux.isBlocked = false)
    (h : c.hosting.Holds seen taken) :
    Hosting.Holds { c.hosting with
      inbox
      data := (c.owner.receive message).1.demux.data
      held := (c.owner.receive message).1.demux.held } (seen ++ [message]) taken := by
  have hnone : c.owner.demux.held = none :=
    Option.isNone_iff_eq_none.mp (Option.isSome_eq_false_iff.mp hblocked)
  have hfree : heldData c.hosting.held = [] := by
    show heldData c.owner.demux.held = []
    rw [hnone]
    rfl
  have hverdict : ∀ accepted, (c.owner.verdict accepted).1.demux = c.owner.demux := by
    intro accepted
    unfold Owner.verdict
    split <;> rfl
  cases message with
  | data chunk => exact h.readsData hfree hinbox
  | eof => exact h.readsEnd hfree hinbox rfl hfree
  | close => exact h.readsEnd hfree hinbox rfl rfl
  | success | failure =>
    simp only [Owner.receive, hverdict]
    exact h.readsOther hfree hinbox rfl hfree
  | exitStatus | exitSignal => exact h.readsOther hfree hinbox rfl (heldData_request _)
  | other => exact h.readsOther hfree hinbox rfl hfree

theorem Hosts.alone (h : Hosts c written seen taken) (hlate : ClosesLate c)
    (hstep : Alone c action c') : (∃ seen', Hosts c' written seen' taken) ∧ c.posted c' = [] := by
  have hquiet : ∀ {seen'}, Hosts c' written seen' taken → c'.outbox.length ≤ c.outbox.length →
      (∃ seen', Hosts c' written seen' taken) ∧ c.posted c' = [] :=
    fun hhosts hle => ⟨⟨_, hhosts⟩, posted_of_le hle⟩
  cases hstep with
  | @user input =>
    obtain ⟨hhosts, hposted⟩ := h.handle (c.handles_call input)
    exact ⟨⟨seen, hhosts⟩, hposted⟩
  | handler hresume =>
    obtain ⟨hhosts, hposted⟩ := h.handle (handles_resume? hresume)
    exact ⟨⟨seen, hhosts⟩, hposted⟩
  | deliver _ houtbox =>
    refine hquiet (h.of_eq rfl rfl) ?_
    rw [houtbox]
    exact Nat.le_succ _
  | lost => exact hquiet (h.of_eq rfl rfl) (Nat.zero_le _)
  | ask | askToClose | write => exact hquiet (h.of_eq rfl rfl) (Nat.le_refl _)
  | @host message =>
    exact hquiet (h.move rfl (h.way.host message) fun hdone => hdone.host message) (Nat.le_refl _)
  | release hstep =>
    obtain ⟨-, hblocked, -, rfl, rfl⟩ := Owner.step?_release hstep
    exact hquiet (h.move rfl (hosting_release c hblocked h.way) id) (Nat.le_refl _)
  | @read message inbox owner effects hinbox hstep =>
    obtain ⟨-, -, hfree, hreceive⟩ := Owner.step?_message hstep
    have hway := hosting_receive hinbox hfree h.way
    rw [hreceive] at hway
    have hread : Hosts { c with inbox, owner } written (seen ++ [message]) taken :=
      h.move rfl hway id
    exact hread.effects effects rfl
  | @obey command commands sending owner effects hcommands hstep =>
    obtain ⟨-, hobey⟩ := Owner.step?_command hstep
    obtain ⟨hdemux, -⟩ := c.owner.obey_keeps sending command
    rw [hobey] at hdemux
    dsimp only at hdemux
    have hobeyed : Hosts { c with commands, owner } written seen taken := by
      refine h.of_eq rfl ?_
      simp only [hosting, hdemux, isOver]
    exact hobeyed.effects effects rfl
  | @finish owner effects hgone hstep =>
    obtain ⟨-, rfl, -⟩ := Owner.step?_finish hstep
    have hstopped : c.hosting.active = false := by
      show (!c.isOver (.data .outbound)) = false
      rw [isOver, (hlate.drained hgone .outbound).1]
      rfl
    have hfinished : Hosts { c with
        owner := { c.owner with
          ended := true, localClosed := true, demux := c.owner.demux.endAll, pending := [] } }
        written seen taken := h.move rfl (h.way.finish hstopped) id
    exact hfinished.effects effects rfl

/-- A step that is not one of the task that copies the host's data. -/
theorem Hosts.follow (h : Hosts c written seen taken) (hstep : c.pipe.step? a = some p)
    (hother : a.worker? ≠ some (.data .outbound)) : Hosts { c with pipe := p } written seen taken := by
  have hrests := h.copied.rests (Pipe.step_of_step? hstep) hother
  exact ⟨h.way.stop (active_of_step hstep), hrests⟩

/-- The task that copies the host's data takes a step. -/
theorem Hosts.copies (h : Hosts c written seen taken) (hlate : ClosesLate c)
    (hprepares : Prepares c action a c₁) (hstep : c₁.pipe.step? a = some p)
    (hmine : a.worker? = some (.data .outbound)) :
    ∃ taken', Hosts { c₁ with pipe := p } (written ++ c.posted c₁) seen taken' := by
  have hpipe := Pipe.step_of_step? hstep
  have hquiet : ∀ {taken'}, c₁.outbox.length ≤ c.outbox.length →
      Hosts { c₁ with pipe := p } written seen taken' →
      ∃ taken', Hosts { c₁ with pipe := p } (written ++ c.posted c₁) seen taken' := by
    intro taken' hle hhosts
    rw [posted_of_le hle, List.append_nil]
    exact ⟨taken', hhosts⟩
  cases hprepares with
  | @readFromHost writing now data chunk htake =>
    have hactive : c.hosting.active = true := by
      cases hpipe with
      | readChunk hstate => exact active_of_copying hstate ⟨nofun, nofun⟩
    have htaken := h.way.take hactive htake
    exact hquiet (Nat.le_refl _)
      ⟨htaken.stop (active_of_step hstep), h.copied.readsChunk hlate.orderly hpipe⟩
  | @readEndFromHost writing now data htake =>
    have hactive : c.hosting.active = true := by
      cases hpipe with
      | readEnd hstate => exact active_of_copying hstate ⟨nofun, nofun⟩
    have hdone := h.way.tookEnd hactive htake
    have hway : Hosting.Holds { c.hosting with data } seen taken := by
      rw [(Queue.take_ended htake).1]
      exact h.way
    exact hquiet (Nat.le_refl _)
      ⟨hway.stop (active_of_step hstep), h.copied.readsEnd hpipe hdone⟩
  | recordFromHost hrecord =>
    obtain ⟨log, rfl⟩ := record?_eq hrecord
    exact hquiet (Nat.le_refl _)
      ⟨h.way.stop (active_of_step hstep), h.copied.records hlate.orderly hpipe⟩
  | @writeToUser writing now chunk _ result hpost =>
    have hposted := posted_post? hpost
    obtain ⟨outbox, rfl⟩ := post?_eq hpost
    refine ⟨taken, h.way.stop (active_of_step hstep), ?_⟩
    refine h.copied.writes hlate.orderly hpipe (fun hok before hbefore => ?_)
      fun e herror before hbefore => ?_
    · rcases hposted with ⟨⟨e, herror⟩, -⟩ | ⟨-, hposted⟩
      · cases hok.symm.trans herror
      · rw [hposted, hbefore]
        rfl
    · rcases hposted with ⟨-, hposted⟩ | ⟨hok, -⟩
      · rw [hposted, hbefore, List.append_nil]
      · cases hok.symm.trans herror
  | halfCloseUser hpost =>
    rw [posted_post?_other hpost rfl, List.append_nil]
    obtain ⟨outbox, rfl⟩ := post?_eq hpost
    exact ⟨taken, h.way.stop (active_of_step hstep), h.copied.halfCloses hpipe⟩
  | _ => cases hmine

theorem Aside.hosting (h : Aside c a c₁) (hother : a.worker? ≠ some (.data .outbound)) :
    c₁.hosting = c.hosting := by
  obtain ⟨hdata, hheld, -⟩ := h.toUser hother
  simp only [Channel.hosting, isOver, h.pipe, h.inbox, h.heard.2, hdata, hheld]

theorem Hosts.along (h : Hosts c written seen taken) (hlate : ClosesLate c)
    (hprepares : Prepares c action a c₁) (hstep : c₁.pipe.step? a = some p) :
    ∃ taken', Hosts { c₁ with pipe := p } (written ++ c.posted c₁) seen taken' := by
  by_cases hmine : a.worker? = some (.data .outbound)
  · exact h.copies hlate hprepares hstep hmine
  · have haside := aside_of_prepares hprepares
    rw [(haside.toUser hmine).2.2, List.append_nil]
    have hprepared : Hosts c₁ written seen taken := h.of_eq haside.pipe (haside.hosting hmine)
    exact ⟨taken, hprepared.follow hstep hmine⟩

theorem Hosts.dropEnded (h : Hosts c written seen taken) : Hosts c.dropEnded written seen taken := by
  obtain ⟨callback, feed, demux, toUser, told, -, -, hdata, hheld, heq⟩ := c.dropEnded_eq
  rw [heq]
  refine h.move rfl ?_ id
  have hhosting : hosting { c with
      callback, feed
      owner := { c.owner with demux }
      passed := { c.passed with toUser, verdicts := told } } =
      { c.hosting with data := demux.data } := by
    simp only [hosting, hheld, isOver]
  rw [hhosting, hdata]
  split_ifs with hover
  · have hstopped : c.hosting.active = false := by
      show (!c.isOver (.data .outbound)) = false
      rw [hover]
      rfl
    exact h.way.abandon hstopped
  · exact h.way

/-! ### Steps and runs -/

/-- A channel that relays data both ways. -/
structure Relays (c : Channel) (cut : Prop) (written : List Chunk) : Prop where
  late : ClosesLate c
  feeds : ∃ taken, Feeds c cut taken
  hosts : ∃ seen taken, Hosts c written seen taken

theorem posted_dropEnded (c c₁ : Channel) : c.posted c₁.dropEnded = c.posted c₁ := by
  obtain ⟨callback, feed, demux, toUser, told, -, -, -, -, heq⟩ := c₁.dropEnded_eq
  rw [heq]
  rfl

theorem Relays.weaken {cut' : Prop} (h : Relays c cut written) (hcut : cut → cut')
    (hclosed : cut' → c.owner.remoteClosed = true) : Relays c cut' written := by
  obtain ⟨taken, hfeeds⟩ := h.feeds
  refine ⟨h.late, ⟨taken, hfeeds.way, ?_, hclosed⟩, h.hosts⟩
  exact hfeeds.copied.imp (fun _ hsent => hsent.weaken hcut) id

theorem Relays.step (h : Relays c cut written) (hcut : c.CutShort → cut)
    (hstep : c.step? action = some c') : Relays c' cut (written ++ c.posted c') := by
  obtain ⟨taken, hfeeds⟩ := h.feeds
  obtain ⟨seen, taken', hhosts⟩ := h.hosts
  rcases step_of_step? hstep with halone | ⟨a, c₁, p, hprepares, hpipe, rfl⟩
  · obtain ⟨⟨seen', hnext⟩, hposted⟩ := hhosts.alone h.late halone
    rw [hposted, List.append_nil]
    exact ⟨h.late.alone halone, ⟨taken, hfeeds.alone halone⟩, ⟨seen', taken', hnext⟩⟩
  · obtain ⟨taken, hfeeds⟩ := hfeeds.along h.late hcut hprepares hpipe
    obtain ⟨taken', hhosts⟩ := hhosts.along h.late hprepares hpipe
    rw [posted_dropEnded]
    exact ⟨(h.late.along hprepares hpipe).dropEnded, ⟨taken, hfeeds.dropEnded⟩,
      ⟨seen, taken', hhosts.dropEnded⟩⟩

theorem run?_snoc {c : Channel} {actions : List ChannelAction}
    (h : c.run? (actions ++ [action]) = some c') :
    ∃ c₁, c.run? actions = some c₁ ∧ c₁.step? action = some c' := by
  induction actions generalizing c with
  | nil =>
    obtain ⟨c₁, hstep, hrun⟩ := Option.bind_eq_some_iff.mp h
    cases hrun
    exact ⟨c, rfl, hstep⟩
  | cons first more ih =>
    obtain ⟨c₁, hfirst, hmore⟩ := Option.bind_eq_some_iff.mp h
    obtain ⟨c₂, hrun, hstep⟩ := ih hmore
    exact ⟨c₂, Option.bind_eq_some_iff.mpr ⟨c₁, hfirst, hrun⟩, hstep⟩

theorem writtenToUser_snoc {c : Channel} {actions : List ChannelAction}
    (hrun : c.run? actions = some c₁) (hstep : c₁.step? action = some c') :
    c.writtenToUser (actions ++ [action]) = c.writtenToUser actions ++ c₁.posted c' := by
  induction actions generalizing c with
  | nil =>
    cases hrun
    simp [writtenToUser, hstep]
  | cons first more ih =>
    obtain ⟨c₂, hfirst, hmore⟩ := Option.bind_eq_some_iff.mp hrun
    rw [List.cons_append, writtenToUser, writtenToUser, hfirst]
    dsimp only
    rw [ih hmore, List.append_assoc]

/-- At some moment of a run the host has closed the channel while the user's data was being copied. -/
def WasCutShort (c : Channel) (actions : List ChannelAction) : Prop :=
  ∃ before c₀, before <+: actions ∧ c.run? before = some c₀ ∧ c₀.CutShort

theorem Relays.closed (h : Relays c cut written) (hcut : cut) : c.owner.remoteClosed = true := by
  obtain ⟨taken, hfeeds⟩ := h.feeds
  exact hfeeds.closed hcut

theorem relays_start (streams : Recording.SessionStreams) :
    Relays (start streams) ((start streams).WasCutShort []) [] := by
  have hthrough : ∀ source, ¬ (start streams).pipe.Through source := by
    rintro source (hno | hno | hno | hno) <;> cases hno
  refine ⟨⟨.fresh _, ?_, ?_⟩, ⟨[], ?_, ⟨⟨List.prefix_refl _, fun _ => rfl⟩, ?_⟩, ?_⟩,
    [], [], ?_, ⟨rfl, ?_⟩⟩
  · rintro (⟨todo, hno⟩ | hno) <;> cases hno
  · rintro (⟨call, hno⟩ | hno | hno) <;> cases hno
  · exact ⟨List.prefix_refl _, fun _ => rfl, fun _ => List.prefix_refl _, fun _ _ => rfl, fun _ _ => rfl,
      fun _ ⟨a, hmem, _⟩ => (by cases hmem), nofun⟩
  · exact fun hno => absurd hno (hthrough _)
  · rintro ⟨before, c₀, hbefore, hrun, hclosed, -⟩
    rw [List.prefix_nil.mp hbefore] at hrun
    cases hrun
    exact hclosed
  · exact ⟨rfl, List.prefix_refl _, fun _ => rfl, fun _ => rfl, fun _ _ => rfl,
      fun _ ⟨a, hmem, _⟩ => (by cases hmem), nofun⟩
  · exact fun hno => absurd hno (hthrough _)

/-- All steps of a run keep the channel relaying. -/
theorem relays_of_run {streams : Recording.SessionStreams} {actions : List ChannelAction} :
    ∀ {c : Channel}, (start streams).run? actions = some c →
      Relays c ((start streams).WasCutShort actions) ((start streams).writtenToUser actions) := by
  -- From the last step backwards, as what was written and what was cut short are told from the start.
  induction actions using List.reverseRecOn with
  | nil =>
    intro c hrun
    cases hrun
    exact relays_start streams
  | append_singleton actions action ih =>
    intro c hrun
    obtain ⟨c₁, hbefore, hstep⟩ := run?_snoc hrun
    have hcut : c₁.CutShort → (start streams).WasCutShort actions :=
      fun hshort => ⟨actions, c₁, List.prefix_refl _, hbefore, hshort⟩
    have hnext := (ih hbefore).step hcut hstep
    rw [writtenToUser_snoc hbefore hstep]
    refine hnext.weaken ?_ ?_
    · rintro ⟨before, c₀, hprefix, hshort⟩
      exact ⟨before, c₀, hprefix.trans (List.prefix_append _ _), hshort⟩
    · rintro ⟨before, c₀, hprefix, hrun₀, hshort⟩
      rcases List.prefix_concat_iff.mp hprefix with rfl | hprefix
      · cases hrun₀.symm.trans hrun
        exact hshort.1
      · exact hnext.closed ⟨before, c₀, hprefix, hrun₀, hshort⟩

/-- A pipe that returns a success has seen both copying tasks come to the end of their data. -/
theorem Relays.through (h : Relays c cut written) (hok : c.pipe.result? = some (.ok ()))
    (source : Side) : c.pipe.Through source :=
  .inr (.inr (.inr (h.late.earned (.inr (Pipe.control_of_result? hok)) (.data source))))

end Channel

/-- In every channel that can be reached, what the host has received is a beginning of the data that the
user has sent before the end, and what was written to the user is a beginning of the data that the host
has sent before the end, bytes and kind unchanged. Once the pipe has returned a success, the user has been
written all of it, and so has the host, unless it has closed the channel before. -/
theorem data_passes_unchanged {streams : Recording.SessionStreams} {actions : List ChannelAction}
    {c : Channel} (hrun : (Channel.start streams).run? actions = some c) :
    let fromUser := beforeEnd UserInput.data? c.passed.fromUser
    let fromHost := beforeEnd HostMessage.data? c.passed.fromHost
    let toUser := (Channel.start streams).writtenToUser actions
    c.passed.dataToHost.map Chunk.form <+: fromUser.map Chunk.form ∧ toUser <+: fromHost ∧
      (c.pipe.result? = some (.ok ()) →
        Ends HostMessage.data? c.passed.fromHost ∧ toUser = fromHost ∧
        (Ends UserInput.data? c.passed.fromUser ∨ c.link = .gone) ∧
        (Ends UserInput.data? c.passed.fromUser →
          c.passed.dataToHost.map Chunk.form = fromUser.map Chunk.form ∨
            (Channel.start streams).WasCutShort actions)) := by
  intro fromUser fromHost toUser
  have hrelays := Channel.relays_of_run hrun
  obtain ⟨taken, hfeeds⟩ := hrelays.feeds
  obtain ⟨seen, taken', hhosts⟩ := hrelays.hosts
  refine ⟨?_, ?_, fun hok => ?_⟩
  · obtain ⟨blocks, hblocks, hsent⟩ := hfeeds.copied.copies.moved
    exact hsent.past.trans ((hblocks.trans hfeeds.way.past).map _)
  · obtain ⟨blocks, hblocks, rfl⟩ := hhosts.copied.copies.moved
    have hread : beforeEnd HostMessage.data? seen <+: fromHost := by
      show _ <+: beforeEnd HostMessage.data? c.hosting.fromHost
      rw [hhosts.way.heard]
      exact beforeEnd_prefix_append _ _
    exact (hblocks.trans hhosts.way.past).trans hread
  · obtain ⟨hwritten, hended⟩ := hhosts.copied.through (hrelays.through hok .outbound)
    obtain ⟨hsent, hdone⟩ := hfeeds.copied.through (hrelays.through hok .inbound)
    refine ⟨hended.ended, hwritten.trans hended.all, hdone.ended, fun hends => ?_⟩
    by_cases hcut : (Channel.start streams).WasCutShort actions
    · exact .inr hcut
    · refine .inl ((hsent.all hcut).trans ?_)
      rw [hdone.all hends]

/-- A user who sends a block and closes the channel, and a host that sends a block and does the same. -/
theorem data_passes_unchanged_both_ways :
    let task (t : PipeTask) : ChannelAction := .task t (.ok ()) ⟨0, 0⟩
    let actions : List ChannelAction := [
      .user (.data { data := [1], ext := some 5 }), .user .close, task (.data .inbound),
      task (.data .inbound), task (.data .inbound), task (.data .inbound), .report (.data .inbound),
      task (.requests .inbound), .report (.requests .inbound), .host (.data { data := [2] }),
      .host .close, .read, .read, task (.data .outbound), task (.data .outbound),
      task (.data .outbound), task (.data .outbound), .report (.data .outbound),
      task (.requests .outbound), .report (.requests .outbound), .control .seesCompletion,
      .control .seesCompletion, .control (.closed .outbound), .obey (.ok ()),
      .control (.closed .outbound), .control .seesCompletion, .control .seesCompletion,
      .control (.closed .inbound)]
    ∃ c, (Channel.start {}).run? actions = some c ∧ c.pipe.result? = some (.ok ()) ∧
      c.passed.dataToHost.map Chunk.form = [([1], true)] ∧
      (Channel.start {}).writtenToUser actions = beforeEnd HostMessage.data? c.passed.fromHost := by
  intro task actions
  obtain ⟨c, hrun, hok, hsent⟩ : ∃ c, (Channel.start {}).run? actions = some c ∧
      c.pipe.result? = some (.ok ()) ∧ c.passed.dataToHost.map Chunk.form = [([1], true)] :=
    ⟨_, rfl, rfl, rfl⟩
  obtain ⟨-, -, hall⟩ := data_passes_unchanged hrun
  exact ⟨c, hrun, hok, hsent, (hall hok).2.1⟩

end Gatehouse.Relay
