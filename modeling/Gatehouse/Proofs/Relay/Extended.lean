import Gatehouse.Proofs.Relay.Data

/-!
# What becomes of the code of extended data

`extended_data_arrives`: what the user receives of the host's data has the codes that the host has given it.
What the host receives of the user's data is extended exactly where that is, but all of it has the code of
standard error output, so that a code arrives unchanged only if it is this one; `extended_code_replaced` is
a block that arrives with another code.

Proof. Every block that the host receives has come through one of two lanes (`Channel.Carried`), so that it
is told by its form, and that passes unchanged (`Channel.relays_of_run`). The user is sent what is in the
outbox, in order, as long as the channel is open (`Channel.Reaches`).
-/

namespace Gatehouse.Relay

/-! ### Blocks at the host -/

/-- A block as it comes out of its lane: extended data of whatever code is standard error output. -/
def Chunk.atHost (chunk : Chunk) : Chunk :=
  { chunk with ext := chunk.ext.map fun _ => Lane.errorCode }

/-- The block that comes out of a lane, by its form. -/
def Chunk.ofForm (form : Bytes × Bool) : Chunk :=
  { data := form.1, ext := if form.2 then some Lane.errorCode else none }

theorem Chunk.ofForm_form (chunk : Chunk) : ofForm chunk.form = chunk.atHost := by
  unfold ofForm form atHost
  cases chunk.ext <;> rfl

theorem carry_eq_atHost (chunk : Chunk) : (Lane.ofChunk chunk).carry chunk.data = chunk.atHost := by
  unfold Lane.ofChunk Chunk.atHost
  cases chunk.ext <;> rfl

theorem Chunk.atHost_atHost (chunk : Chunk) : chunk.atHost.atHost = chunk.atHost := by
  unfold atHost
  cases chunk.ext <;> rfl

/-- Only ordinary data and standard error output come out of the lanes as they went in. -/
theorem Chunk.atHost_eq_self_iff (chunk : Chunk) :
    chunk.atHost = chunk ↔ chunk.ext = none ∨ chunk.ext = some Lane.errorCode := by
  obtain ⟨data, ext⟩ := chunk
  cases ext with
  | none => simp [atHost]
  | some code => simp [atHost, eq_comm]

theorem map_atHost (chunks : List Chunk) :
    chunks.map Chunk.atHost = (chunks.map Chunk.form).map Chunk.ofForm := by
  rw [List.map_map]
  exact List.map_congr_left fun chunk _ => chunk.ofForm_form.symm

/-! ### Blocks that are told -/

/-- The data among messages to a user. -/
def dataOf (messages : List UserMessage) : List Chunk :=
  messages.filterMap UserMessage.data?

/-- The blocks that are sent at all: an empty one is not. -/
def shown (chunks : List Chunk) : List Chunk :=
  chunks.filter fun chunk => !chunk.data.isEmpty

theorem dataOf_append (messages more : List UserMessage) :
    dataOf (messages ++ more) = dataOf messages ++ dataOf more :=
  List.filterMap_append

theorem dataOf_visible (message : UserMessage) :
    dataOf (UserLink.visible message) = shown message.data?.toList := by
  cases message with
  | data chunk =>
    by_cases hempty : chunk.data.isEmpty = true <;>
      simp [UserLink.visible, dataOf, shown, UserMessage.data?, hempty]
  | _ => rfl

theorem shown_append (chunks more : List Chunk) : shown (chunks ++ more) = shown chunks ++ shown more :=
  List.filter_append _ _

namespace Channel

variable {c c' c₁ : Channel} {action : ChannelAction} {a : PipeAction} {written : List Chunk}

/-! ### The host's side -/

/-- Every block that the host has received came out of a lane. -/
def Carried (c : Channel) : Prop :=
  ∀ chunk ∈ c.passed.dataToHost, chunk.atHost = chunk

theorem Carried.of_eq (h : c.Carried) (heq : c'.passed.dataToHost = c.passed.dataToHost) : c'.Carried := by
  unfold Carried
  rw [heq]
  exact h

theorem Carried.effects (h : c.Carried) (effects : List OwnerEffect) : (effects.foldl effect c).Carried := by
  obtain ⟨answered, closeAnswered, requestsToHost, closes, heq⟩ := effects_eq effects c
  rw [heq]
  exact h

theorem Carried.handle (h : c.Carried) (hhandles : Handles c c') : c'.Carried := by
  obtain ⟨callback, nextAsker, feed, link, fromUser, toUser, verdicts, rfl⟩ := hhandles
  exact h

theorem Carried.alone (h : c.Carried) (hstep : Alone c action c') : c'.Carried := by
  cases hstep with
  | user => exact h.handle (c.handles_call _)
  | handler hresume => exact h.handle (handles_resume? hresume)
  | deliver | lost | ask | askToClose | host | write => exact h.of_eq rfl
  | release | read | obey | finish =>
    refine Carried.effects ?_ _
    exact h.of_eq rfl

theorem Carried.writes (h : c.Carried) {chunk : Chunk} {writing : Except String Unit}
    {result : Except RelayError Unit} (hwrite : c.writeToHost chunk writing = (c₁, result)) : c₁.Carried := by
  rcases writeToHost_cases hwrite with ⟨-, rfl, -⟩ | ⟨e, rfl, -⟩ | ⟨-, -, rfl⟩
  · exact h
  · exact h
  · intro received hmem
    rcases List.mem_append.mp hmem with hmem | hmem
    · exact h received hmem
    · rw [List.mem_singleton.mp hmem, carry_eq_atHost, Chunk.atHost_atHost]

theorem Carried.along (h : c.Carried) (hprepares : Prepares c action a c₁) : c₁.Carried := by
  by_cases hmine : a.worker? = some (.data .inbound)
  · cases hprepares with
    | readFromUser | readEndFromUser => exact h.of_eq rfl
    | recordFromUser hrecord =>
      obtain ⟨log, rfl⟩ := record?_eq hrecord
      exact h
    | writeToHost hwrite => exact h.writes hwrite
    | @halfCloseHost writing now _ _ hhalf =>
      obtain ⟨halfCloses, heq⟩ := c.halfCloseHost_eq writing
      rw [hhalf] at heq
      cases heq
      exact h
    | _ => cases hmine
  · exact h.of_eq ((aside_of_prepares hprepares).toHost hmine).2

theorem Carried.step (h : c.Carried) (hstep : c.step? action = some c') : c'.Carried := by
  rcases step_of_step? hstep with halone | ⟨a, c₁, p, hprepares, -, rfl⟩
  · exact h.alone halone
  · obtain ⟨callback, feed, demux, toUser, told, -, -, -, -, heq⟩ := dropEnded_eq { c₁ with pipe := p }
    rw [heq]
    have hprepared := h.along hprepares
    exact hprepared.of_eq rfl

/-! ### The user's side -/

/-- The user has been sent what was written, in order, and still is as long as the channel is open. -/
structure Reaches (c : Channel) (written : List Chunk) : Prop where
  past : dataOf c.passed.toUser <+: shown written
  all : c.link = .running → dataOf c.passed.toUser ++ shown (dataOf c.outbox) = shown written

/-- The user is told nothing but verdicts, nothing is put into the outbox, and no channel is opened. -/
structure Quiet (c c' : Channel) : Prop where
  outbox : c'.outbox = c.outbox
  told : dataOf c'.passed.toUser = dataOf c.passed.toUser
  link : c'.link = .running → c.link = .running

theorem Quiet.refl (c : Channel) : Quiet c c :=
  ⟨rfl, rfl, id⟩

theorem Quiet.trans {c₂ : Channel} (h : Quiet c c₁) (h' : Quiet c₁ c₂) : Quiet c c₂ :=
  ⟨h'.outbox.trans h.outbox, h'.told.trans h.told, fun hlink => h.link (h'.link hlink)⟩

theorem Quiet.posted (h : Quiet c c') : c.posted c' = [] :=
  posted_of_le (Nat.le_of_eq (congrArg List.length h.outbox))

theorem Reaches.quiet (h : c.Reaches written) (hquiet : Quiet c c') : c'.Reaches written := by
  refine ⟨hquiet.told ▸ h.past, fun hlink => ?_⟩
  rw [hquiet.told, hquiet.outbox]
  exact h.all (hquiet.link hlink)

theorem quiet_settle (c : Channel) (asker : AskId) (verdict : Option Bool) :
    Quiet c (c.settle asker verdict) := by
  refine ⟨rfl, ?_, id⟩
  unfold settle
  split
  · exact (dataOf_append _ _).trans (List.append_nil _)
  · exact (dataOf_append _ _).trans (List.append_nil _)

theorem quiet_deliverVerdicts (c : Channel) (verdicts : List FeedVerdict) :
    Quiet c (c.deliverVerdicts verdicts) := by
  rcases c.deliverVerdicts_cases verdicts with hsame | ⟨v, -, -, hsettle⟩
  · rw [hsame]
    exact .refl c
  · rw [hsettle]
    exact quiet_settle c _ _

theorem quiet_offer (c : Channel) (chunk : Chunk) : Quiet c (c.offer chunk) := by
  unfold offer
  split <;> exact ⟨rfl, rfl, id⟩

theorem quiet_ask (c : Channel) (asker : AskId) (request : Request) : Quiet c (c.ask asker request) := by
  unfold ask
  split
  · exact ⟨rfl, rfl, id⟩
  · exact ⟨rfl, rfl, id⟩
  · next feed verdict _ =>
    have hfeed : Quiet c { c with feed } := ⟨rfl, rfl, id⟩
    exact hfeed.trans (quiet_settle _ asker verdict)

theorem quiet_call (c : Channel) (input : UserInput) : Quiet c (c.call input) := by
  have hpassed : Quiet c { c with passed := { c.passed with fromUser := c.passed.fromUser ++ [input] } } :=
    ⟨rfl, rfl, id⟩
  cases input with
  | data chunk => exact hpassed.trans (quiet_offer _ chunk)
  | eof => exact ⟨rfl, rfl, id⟩
  | request request =>
    have hnext : Quiet c { c with
        passed := { c.passed with fromUser := c.passed.fromUser ++ [.request request] }
        nextAsker := c.nextAsker + 1 } := ⟨rfl, rfl, id⟩
    exact hnext.trans (quiet_ask _ c.nextAsker request)
  | close => exact ⟨rfl, rfl, nofun⟩

theorem quiet_resume? (h : c.resume? = some c') : Quiet c c' := by
  unfold resume? at h
  split at h
  · split_ifs at h
    cases h
    exact quiet_offer c _
  · split_ifs at h
    cases h
    exact quiet_ask c _ _
  · cases h
  · cases h

theorem quiet_effects (c : Channel) (effects : List OwnerEffect) : Quiet c (effects.foldl effect c) := by
  obtain ⟨answered, closeAnswered, requestsToHost, closes, heq⟩ := effects_eq effects c
  rw [heq]
  exact ⟨rfl, rfl, id⟩

theorem quiet_dropEnded (c : Channel) : Quiet c c.dropEnded := by
  have hqueues : ∀ {feed : Feed} {owner : Owner}, Quiet c { c with feed, owner } := ⟨rfl, rfl, id⟩
  unfold Channel.dropEnded
  exact hqueues.trans (quiet_deliverVerdicts _ _)

/-- The connection sends what is oldest in the outbox, or drops it if the channel is not open. -/
theorem Reaches.deliver (h : c.Reaches written) {message : UserMessage} {outbox : List UserMessage}
    {link : UserLink} {seen : List UserMessage} {sent : Except RelayError Unit}
    (houtbox : c.outbox = message :: outbox) (hsend : c.link.send message = (link, seen, sent)) :
    Reaches { c with outbox, link, passed := { c.passed with toUser := c.passed.toUser ++ seen } }
      written := by
  cases hlink : c.link with
  | running =>
    rw [hlink] at hsend
    cases hsend
    have hall := h.all hlink
    have hnext : dataOf (c.passed.toUser ++ UserLink.visible message) ++ shown (dataOf outbox) =
        shown written := by
      rw [← hall, houtbox, dataOf_append, dataOf_visible, List.append_assoc, ← shown_append]
      cases message <;> rfl
    exact ⟨hnext ▸ List.prefix_append _ _, fun _ => hnext⟩
  | closed | gone =>
    rw [hlink] at hsend
    cases hsend
    exact ⟨(List.append_nil c.passed.toUser).symm ▸ h.past, nofun⟩

/-- A message that is put into the outbox is written. -/
theorem Reaches.post (h : c.Reaches written) {message : UserMessage} {result : Except RelayError Unit}
    (hpost : c.post? message = some (c₁, result)) : c₁.Reaches (written ++ c.posted c₁) := by
  rcases post?_cases hpost with ⟨rfl, -⟩ | ⟨rfl, -⟩
  · rw [posted_of_le (Nat.le_refl _), List.append_nil]
    exact h
  · rw [posted_snoc rfl]
    refine ⟨?_, fun hlink => ?_⟩
    · rw [shown_append]
      exact h.past.trans (List.prefix_append _ _)
    · show dataOf c.passed.toUser ++ shown (dataOf (c.outbox ++ [message])) = _
      rw [dataOf_append, shown_append, shown_append, ← List.append_assoc, h.all hlink]
      cases message <;> rfl

theorem exists_post?_of_requestToUser? {request : Request} {result : Except RelayError Bool}
    (h : c.requestToUser? request = some (c₁, result)) :
    c₁ = c ∨ ∃ message posted, c.post? message = some (c₁, posted) := by
  have htold : ∀ message, requestToUser?.told c message = some (c₁, result) →
      ∃ message posted, c.post? message = some (c₁, posted) := by
    intro message htold
    obtain ⟨⟨c₂, posted⟩, hpost, heq⟩ := Option.bind_eq_some_iff.mp htold
    cases heq
    exact ⟨message, posted, hpost⟩
  unfold requestToUser? at h
  split at h
  · exact .inr (htold _ h)
  · exact .inr (htold _ h)
  · cases h
    exact .inl rfl

theorem Reaches.still (h : c.Reaches written) (hquiet : Quiet c c') :
    c'.Reaches (written ++ c.posted c') := by
  rw [hquiet.posted, List.append_nil]
  exact h.quiet hquiet

theorem Reaches.alone (h : c.Reaches written) (hstep : Alone c action c') :
    c'.Reaches (written ++ c.posted c') := by
  cases hstep with
  | user => exact h.still (quiet_call c _)
  | handler hresume => exact h.still (quiet_resume? hresume)
  | deliver _ houtbox hsend =>
    rw [posted_of_le (houtbox ▸ Nat.le_succ _), List.append_nil]
    exact h.deliver houtbox hsend
  | lost =>
    rw [posted_of_le (Nat.zero_le _), List.append_nil]
    exact ⟨h.past, nofun⟩
  | ask | askToClose | host | write => exact h.still ⟨rfl, rfl, id⟩
  | release | read | obey | finish =>
    refine h.still (Quiet.trans ?_ (quiet_effects _ _))
    exact ⟨rfl, rfl, id⟩

theorem Reaches.along (h : c.Reaches written) (hprepares : Prepares c action a c₁) :
    c₁.Reaches (written ++ c.posted c₁) := by
  have hfeed : ∀ feed, Quiet c { c with feed } := fun _ => ⟨rfl, rfl, id⟩
  cases hprepares with
  | readFromUser | readEndFromUser => exact h.still (hfeed _)
  | recordFromUser hrecord | recordFromHost hrecord | recordCommand hrecord =>
    obtain ⟨log, rfl⟩ := record?_eq hrecord
    exact h.still ⟨rfl, rfl, id⟩
  | @writeToHost writing now chunk _ _ hwrite =>
    obtain ⟨dataToHost, heq⟩ := c.writeToHost_eq chunk writing
    rw [hwrite] at heq
    cases heq
    exact h.still ⟨rfl, rfl, id⟩
  | @halfCloseHost writing now _ _ hhalf =>
    obtain ⟨halfCloses, heq⟩ := c.halfCloseHost_eq writing
    rw [hhalf] at heq
    cases heq
    exact h.still ⟨rfl, rfl, id⟩
  | writeToUser hpost | halfCloseUser hpost | closeUser hpost => exact h.post hpost
  | sendToUser hsend =>
    rcases exists_post?_of_requestToUser? hsend with rfl | ⟨message, posted, hpost⟩
    · exact h.still (.refl _)
    · exact h.post hpost
  | takeFromUser | takeEndFromUser | replyToUser =>
    exact h.still ((hfeed _).trans (quiet_deliverVerdicts _ _))
  | _ => exact h.still ⟨rfl, rfl, id⟩

theorem Reaches.step (h : c.Reaches written) (hstep : c.step? action = some c') :
    c'.Reaches (written ++ c.posted c') := by
  rcases step_of_step? hstep with halone | ⟨a, c₁, p, hprepares, -, rfl⟩
  · exact h.alone halone
  · have hprepared := h.along hprepares
    have hquiet : Quiet c₁ { c₁ with pipe := p } := ⟨rfl, rfl, id⟩
    rw [posted_dropEnded]
    exact hprepared.quiet (hquiet.trans (quiet_dropEnded _))

/-! ### Runs -/

theorem carried_reaches_of_run {streams : Recording.SessionStreams} {actions : List ChannelAction} :
    ∀ {c : Channel}, (start streams).run? actions = some c →
      c.Carried ∧ c.Reaches ((start streams).writtenToUser actions) := by
  induction actions using List.reverseRecOn with
  | nil =>
    intro c hrun
    cases hrun
    exact ⟨nofun, List.nil_prefix, fun _ => rfl⟩
  | append_singleton actions action ih =>
    intro c hrun
    obtain ⟨c₁, hbefore, hstep⟩ := run?_snoc hrun
    obtain ⟨hcarried, hreaches⟩ := ih hbefore
    rw [writtenToUser_snoc hbefore hstep]
    exact ⟨hcarried.step hstep, hreaches.step hstep⟩

theorem Carried.eq_map (h : c.Carried) :
    c.passed.dataToHost = (c.passed.dataToHost.map Chunk.form).map Chunk.ofForm := by
  rw [← map_atHost]
  exact (List.map_id _).symm.trans (List.map_congr_left fun chunk hmem => (h chunk hmem).symm)

end Channel

/-- In every channel that can be reached, the user has received the beginning of the host's data with the codes
it was sent with. The host has received the beginning of the user's data, ordinary data as such and extended
data of every code as standard error output, and all of it once the pipe has returned a success, unless the
host has closed the channel before. So a block keeps its code exactly if that is the one of standard error
output. -/
theorem extended_data_arrives {streams : Recording.SessionStreams} {actions : List ChannelAction}
    {c : Channel} (hrun : (Channel.start streams).run? actions = some c) :
    let fromUser := beforeEnd UserInput.data? c.passed.fromUser
    let fromHost := beforeEnd HostMessage.data? c.passed.fromHost
    dataOf c.passed.toUser <+: shown fromHost ∧
      c.passed.dataToHost <+: fromUser.map Chunk.atHost ∧
      (c.pipe.result? = some (.ok ()) →
        (c.link = .running → dataOf c.passed.toUser ++ shown (dataOf c.outbox) = shown fromHost) ∧
        (Ends UserInput.data? c.passed.fromUser →
          c.passed.dataToHost = fromUser.map Chunk.atHost ∨
            (Channel.start streams).WasCutShort actions)) ∧
      ∀ chunk : Chunk, chunk.atHost.data = chunk.data ∧ chunk.atHost.ext.isSome = chunk.ext.isSome ∧
        (chunk.atHost = chunk ↔ chunk.ext = none ∨ chunk.ext = some Lane.errorCode) := by
  intro fromUser fromHost
  have hrelays := Channel.relays_of_run hrun
  obtain ⟨hcarried, hreaches⟩ := Channel.carried_reaches_of_run hrun
  obtain ⟨taken, hfeeds⟩ := hrelays.feeds
  obtain ⟨seen, taken', hhosts⟩ := hrelays.hosts
  refine ⟨?_, ?_, fun hok => ⟨fun hlink => ?_, fun hends => ?_⟩,
    fun chunk => ⟨rfl, Option.isSome_map, chunk.atHost_eq_self_iff⟩⟩
  · obtain ⟨blocks, hblocks, hwritten⟩ := hhosts.copied.copies.moved
    have hread : beforeEnd HostMessage.data? seen <+: fromHost := by
      show _ <+: beforeEnd HostMessage.data? c.hosting.fromHost
      rw [hhosts.way.heard]
      exact beforeEnd_prefix_append _ _
    have hsent : (Channel.start streams).writtenToUser actions <+: fromHost := by
      rw [hwritten]
      exact (hblocks.trans hhosts.way.past).trans hread
    exact hreaches.past.trans (hsent.filter _)
  · obtain ⟨blocks, hblocks, hsent⟩ := hfeeds.copied.copies.moved
    rw [hcarried.eq_map, map_atHost]
    exact (hsent.past.trans ((hblocks.trans hfeeds.way.past).map _)).map _
  · obtain ⟨hwritten, hended⟩ := hhosts.copied.through (hrelays.through hok .outbound)
    rw [hreaches.all hlink, hwritten.trans hended.all]
  · obtain ⟨hsent, hdone⟩ := hfeeds.copied.through (hrelays.through hok .inbound)
    by_cases hcut : (Channel.start streams).WasCutShort actions
    · exact .inr hcut
    · left
      rw [hcarried.eq_map, map_atHost, hsent.all hcut, hdone.all hends]

/-- The user sends extended data and ordinary data, and the host sends extended data: the user is told the
code of the host's, and the host that of standard error output. -/
theorem extended_data_arrives_both_ways :
    let task (t : PipeTask) : ChannelAction := .task t (.ok ()) ⟨0, 0⟩
    let actions : List ChannelAction := [
      .user (.data { data := [1], ext := some 5 }), .user (.data { data := [2] }), task (.data .inbound),
      task (.data .inbound), task (.data .inbound), task (.data .inbound),
      .host (.data { data := [3], ext := some 7 }), .host .close, .read, .read, task (.data .outbound),
      task (.data .outbound), .deliver, .user .close, task (.data .inbound), task (.data .inbound),
      .report (.data .inbound), task (.requests .inbound), .report (.requests .inbound),
      task (.data .outbound), task (.data .outbound), .report (.data .outbound),
      task (.requests .outbound), .report (.requests .outbound), .control .seesCompletion,
      .control .seesCompletion, .control (.closed .outbound), .obey (.ok ()),
      .control (.closed .outbound), .control .seesCompletion, .control .seesCompletion,
      .control (.closed .inbound)]
    ∃ c, (Channel.start {}).run? actions = some c ∧ c.pipe.result? = some (.ok ()) ∧
      c.passed.dataToHost = [{ data := [1], ext := some 1 }, { data := [2] }] ∧
      dataOf c.passed.toUser = [{ data := [3], ext := some 7 }] ∧
      dataOf c.passed.toUser <+: shown (beforeEnd HostMessage.data? c.passed.fromHost) ∧
      c.passed.dataToHost <+: (beforeEnd UserInput.data? c.passed.fromUser).map Chunk.atHost := by
  intro task actions
  obtain ⟨c, hrun, hok, hsent, htold⟩ : ∃ c, (Channel.start {}).run? actions = some c ∧
      c.pipe.result? = some (.ok ()) ∧
      c.passed.dataToHost = [{ data := [1], ext := some 1 }, { data := [2] }] ∧
      dataOf c.passed.toUser = [{ data := [3], ext := some 7 }] :=
    ⟨_, rfl, rfl, rfl, rfl⟩
  obtain ⟨htoUser, htoHost, -, -⟩ := extended_data_arrives hrun
  exact ⟨c, hrun, hok, hsent, htold, htoUser, htoHost⟩

/-- A block of extended data with code 5 reaches the host with code 1, so that what the host has received is
no beginning of what the user has sent. -/
theorem extended_code_replaced :
    let sent : Chunk := { data := [0x78], ext := some 5 }
    let copy : ChannelAction := .task (.data .inbound) (.ok ()) ⟨0, 0⟩
    ∃ c, (Channel.start {}).run? [.user (.data sent), copy, copy] = some c ∧
      beforeEnd UserInput.data? c.passed.fromUser = [sent] ∧
      c.passed.dataToHost = [{ data := [0x78], ext := some 1 }] ∧
      ¬ c.passed.dataToHost <+: beforeEnd UserInput.data? c.passed.fromUser := by
  refine ⟨_, rfl, rfl, rfl, ?_⟩
  exact (by decide : ¬ [({ data := [0x78], ext := some 1 } : Chunk)] <+: [{ data := [0x78], ext := some 5 }])

end Gatehouse.Relay
