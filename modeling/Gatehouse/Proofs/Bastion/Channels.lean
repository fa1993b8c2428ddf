import Gatehouse.Bastion.Connection
import Gatehouse.Proofs.Bastion.Admission
import Gatehouse.Proofs.History

/-!
# How the channels of a connection are answered

What is done about an event follows from the context of the connection and from what has happened on it
before (`Answers`). A channel is relayed from its opening to its closing, if the connection is for a host and
has been let in (`Relayed`). On a connection that is not for a host a session is the bastion's own from its
opening until a program is asked for (`Local`).

The handler keeps two lists of channels instead. That they say the same (`Tracks`) is kept by every event,
and so every answer is the right one (`Tracks.step`).
-/

namespace Gatehouse.Bastion

open Relay (Request)

/-! ### What has happened on a channel -/

/-- The request asks for a program to be run. -/
def StartsProgram : Request → Prop
  | .shell | .exec _ => True
  | _ => False

/-- The request is agreed to on a channel that the bastion answers itself, but starts nothing. -/
def Prepares : Request → Prop
  | .pty .. | .env .. | .windowChange .. => True
  | _ => False

/-- The connection is for a host. -/
def ForHost (context : Context) : Prop :=
  ∃ name, context.intent = .host name

/-- The channel is one of a connection that is relayed, and is open. -/
def Relayed (context : Context) (channel : ChannelId) (events : List ConnectionEvent) : Prop :=
  (∃ name user, Relayable context name user) ∧
    Since (fun e => ∃ kind, e = .opened channel kind) (· = .closed channel) events

/-- The channel is a session of a connection that is not for a host, is open, and no program has been asked
for on it. -/
def Local (context : Context) (channel : ChannelId) (events : List ConnectionEvent) : Prop :=
  ¬ ForHost context ∧ Since (· = .opened channel .session)
    (fun e => e = .closed channel ∨ ∃ request, StartsProgram request ∧ e = .request channel request) events

/-- What is passed on to the queues of a relayed channel. -/
def passed? : ConnectionEvent → Option (ChannelId × FeedInput)
  | .data channel chunk => some (channel, .data chunk)
  | .eof channel => some (channel, .eof)
  | .closed channel => some (channel, .close)
  | .request channel request => some (channel, .request request)
  | .opened .. | .display _ | .agent _ => none

/-- What a user is told on a channel that the bastion answers itself. -/
def localAnswer (context : Context) (channel : ChannelId) : List HandlerEffect :=
  [.reply true, .data { data := Text.utf8 (localReply context).1 }, .exitStatus (localReply context).2,
    .eof, .close].map (.send channel)

/-- How a connection answers what happens on it after this. -/
inductive Answers (context : Context) (before : List ConnectionEvent) :
    ConnectionEvent → List HandlerEffect → Prop where
  /-- A channel is opened, and relayed. -/
  | relays {channel kind name user} : Relayable context name user →
      Answers context before (.opened channel kind)
        [.accept channel, .relay channel user name kind]
  /-- A channel to a host is opened, and the user is told why it is not relayed. -/
  | refuses {channel kind reason} : ForHost context → admissionError context = some reason →
      Answers context before (.opened channel kind) [.accept channel, .refuse channel reason]
  /-- A session is opened on a connection that is not for a host. -/
  | accepts {channel} : ¬ ForHost context →
      Answers context before (.opened channel .session) [.accept channel]
  /-- A connection that is not for a host forwards nothing. -/
  | declines {channel kind} : ¬ ForHost context → kind ≠ .session →
      Answers context before (.opened channel kind) [.decline channel]
  /-- Whatever comes on a relayed channel is for its queues. -/
  | passes {event channel input} : Relayed context channel before →
      passed? event = some (channel, input) → Answers context before event [.feed channel input]
  /-- What comes on other channels is ignored, unless it is a request. -/
  | ignores {event channel input} : ¬ Relayed context channel before →
      passed? event = some (channel, input) → (∀ request, input ≠ .request request) →
      Answers context before event []
  /-- The first request for a program on a channel of the bastion's own. -/
  | replies {channel request} : Local context channel before → StartsProgram request →
      Answers context before (.request channel request) (localAnswer context channel)
  /-- A request that prepares for a program on a channel of the bastion's own. -/
  | agrees {channel request} : Local context channel before → Prepares request →
      Answers context before (.request channel request) [.send channel (.reply true)]
  /-- Other requests on a channel of the bastion's own, and all requests on a channel that is neither
  relayed nor the bastion's own. -/
  | fails {channel request} : ¬ Relayed context channel before →
      (Local context channel before → ¬ StartsProgram request ∧ ¬ Prepares request) →
      Answers context before (.request channel request) [.send channel (.reply false)]
  /-- No display is forwarded. -/
  | display {channel} : Answers context before (.display channel) [.send channel (.reply false)]
  /-- No agent is forwarded. -/
  | agent {channel} : Answers context before (.agent channel) [.send channel (.reply false)]

theorem forHost_of_relayable {context : Context} (h : ∃ name user, Relayable context name user) :
    ForHost context :=
  let ⟨name, _, hrel⟩ := h
  ⟨name, hrel.forHost⟩

/-! ### What an answer says -/

namespace Answers

variable {context : Context} {before : List ConnectionEvent} {event : ConnectionEvent}
  {effects : List HandlerEffect} {channel : ChannelId} {kind : ChannelKind}

/-- A relay is for a channel that has just been opened on a connection to a host. -/
theorem relay {user : User} {name : String} (h : Answers context before event effects)
    (hmem : .relay channel user name kind ∈ effects) :
    event = .opened channel kind ∧ effects = [.accept channel, .relay channel user name kind] ∧
      Relayable context name user := by
  cases h with
  | relays hrel =>
    simp only [List.mem_cons, reduceCtorEq, HandlerEffect.relay.injEq, List.not_mem_nil, or_false,
      false_or] at hmem
    obtain ⟨rfl, rfl, rfl, rfl⟩ := hmem
    exact ⟨rfl, rfl, hrel⟩
  | _ => simp [localAnswer] at hmem

theorem declined (h : Answers context before (.opened channel kind) effects) (hhost : ¬ ForHost context)
    (hkind : kind ≠ .session) : effects = [.decline channel] := by
  cases h with
  | relays hrel => exact absurd ⟨_, hrel.forHost⟩ hhost
  | refuses hfor => exact absurd hfor hhost
  | accepts => exact absurd rfl hkind
  | declines => rfl
  | passes _ hpassed | ignores _ hpassed => cases hpassed

/-- A channel that is to be relayed or to be the bastion's own is not turned away. -/
theorem opens (h : Answers context before (.opened channel kind) effects)
    (hopen : (∃ name user, Relayable context name user) ∨ ¬ ForHost context ∧ kind = .session) :
    .decline channel ∉ effects ∧ ∀ reason, .refuse channel reason ∉ effects := by
  cases h with
  | relays | accepts => simp
  | refuses hfor hreason =>
    rcases hopen with ⟨name, user, hrel⟩ | ⟨hhost, -⟩
    · rw [admissionError, hrel.untroubled, hrel.ofUser] at hreason
      cases hreason
    · exact absurd hfor hhost
  | declines hhost hkind =>
    rcases hopen with hrel | ⟨-, hsession⟩
    · exact absurd (forHost_of_relayable hrel) hhost
    · exact absurd hsession hkind
  | passes _ hpassed | ignores _ hpassed => cases hpassed

/-- The bastion's own answer is that to the first request for a program on a channel of its own. -/
theorem eq_localAnswer_iff (h : Answers context before event effects) :
    effects = localAnswer context channel ↔
      ∃ request, event = .request channel request ∧ StartsProgram request ∧
        Local context channel before := by
  constructor
  · rintro rfl
    generalize heffects : localAnswer context channel = effects at h
    cases h with
    | @replies other request hlocal hstarts =>
      obtain rfl : channel = other := by simp_all [localAnswer]
      exact ⟨request, rfl, hstarts, hlocal⟩
    | _ => simp [localAnswer] at heffects
  · rintro ⟨request, rfl, hstarts, hlocal⟩
    cases h with
    | replies => rfl
    | passes hrel => exact absurd (forHost_of_relayable hrel.1) hlocal.1
    | ignores _ hpassed hnot =>
      cases hpassed
      exact absurd rfl (hnot request)
    | agrees _ hprepares => cases request <;> first | exact hstarts.elim | exact hprepares.elim
    | fails _ hfails => exact absurd hstarts (hfails hlocal).1

/-- A request on a channel that is neither relayed nor the bastion's own fails. -/
theorem failed {request : Request} (h : Answers context before (.request channel request) effects)
    (hrelayed : ¬ Relayed context channel before) (hlocal : ¬ Local context channel before) :
    effects = [.send channel (.reply false)] := by
  cases h with
  | passes hrel hpassed =>
    cases hpassed
    exact absurd hrel hrelayed
  | ignores _ hpassed hnot =>
    cases hpassed
    exact absurd rfl (hnot request)
  | replies hloc | agrees hloc => exact absurd hloc hlocal
  | fails => rfl

end Answers

/-! ### One more event -/

section

variable {context : Context} {channel other : ChannelId} {events : List ConnectionEvent}

theorem relayed_opened {kind : ChannelKind} :
    Relayed context other (events ++ [.opened channel kind]) ↔
      (∃ name user, Relayable context name user) ∧ other = channel ∨ Relayed context other events := by
  simp only [Relayed, Since.concat_iff, ConnectionEvent.opened.injEq, reduceCtorEq, not_false_eq_true,
    and_true, exists_and_left, exists_eq', ← and_or_left, @eq_comm _ other channel]

theorem relayed_closed :
    Relayed context other (events ++ [.closed channel]) ↔
      Relayed context other events ∧ other ≠ channel := by
  simp only [Relayed, Since.concat_iff, ConnectionEvent.closed.injEq, reduceCtorEq, exists_false, false_or,
    ne_eq, and_assoc, @eq_comm _ other channel]

/-- Nothing else changes whether a channel is relayed. -/
theorem relayed_of_other (event : ConnectionEvent) (hopened : ∀ channel kind, event ≠ .opened channel kind)
    (hclosed : ∀ channel, event ≠ .closed channel) :
    Relayed context other (events ++ [event]) ↔ Relayed context other events := by
  simp only [Relayed, Since.concat_iff, hopened, hclosed, exists_false, false_or, not_false_eq_true, and_true]

theorem local_opened {kind : ChannelKind} :
    Local context other (events ++ [.opened channel kind]) ↔
      ¬ ForHost context ∧ other = channel ∧ kind = .session ∨ Local context other events := by
  simp only [Local, Since.concat_iff, ConnectionEvent.opened.injEq, reduceCtorEq, and_false, exists_false,
    or_self, not_false_eq_true, and_true, ← and_or_left, @eq_comm _ other channel]

theorem local_closed :
    Local context other (events ++ [.closed channel]) ↔
      Local context other events ∧ other ≠ channel := by
  simp only [Local, Since.concat_iff, ConnectionEvent.closed.injEq, reduceCtorEq, and_false, exists_false,
    or_false, false_or, ne_eq, and_assoc, @eq_comm _ other channel]

theorem local_request {request : Request} :
    Local context other (events ++ [.request channel request]) ↔
      Local context other events ∧ ¬ (StartsProgram request ∧ other = channel) := by
  simp only [Local, Since.concat_iff, ConnectionEvent.request.injEq, reduceCtorEq, false_or, and_assoc]
  refine and_congr_right fun _ => and_congr_right fun _ => not_congr ⟨?_, ?_⟩
  · rintro ⟨_, hstarts, rfl, rfl⟩
    exact ⟨hstarts, rfl⟩
  · rintro ⟨hstarts, rfl⟩
    exact ⟨request, hstarts, rfl, rfl⟩

/-- Nothing else changes whether a channel is the bastion's own. -/
theorem local_of_other (event : ConnectionEvent) (hopened : ∀ channel kind, event ≠ .opened channel kind)
    (hclosed : ∀ channel, event ≠ .closed channel)
    (hrequest : ∀ channel request, event ≠ .request channel request) :
    Local context other (events ++ [event]) ↔ Local context other events := by
  simp only [Local, Since.concat_iff, hopened, hclosed, hrequest, and_false, exists_false, or_self, false_or,
    not_false_eq_true, and_true]

end

/-! ### What the handler keeps -/

/-- The handler knows the channels by what has happened on them. -/
structure Tracks (context : Context) (h : Handler) (events : List ConnectionEvent) : Prop where
  same : h.context = context
  relayed : ∀ channel, channel ∈ h.relayed ↔ Relayed context channel events
  locals : ∀ channel, channel ∈ h.locals ↔ Local context channel events

namespace Tracks

variable {context : Context} {h : Handler} {events : List ConnectionEvent}

theorem start (context : Context) : Tracks context { context } [] where
  same := rfl
  relayed := fun _ => ⟨nofun, fun hrelayed => (Since.not_nil hrelayed.2).elim⟩
  locals := fun _ => ⟨nofun, fun hlocal => (Since.not_nil hlocal.2).elim⟩

/-- A connection to a host whose channels are not relayed has a reason to show. -/
theorem admissionError_of_not_relayable {name : String} (hname : context.intent = .host name)
    (h : ¬ ∃ name user, Relayable context name user) : ∃ reason, admissionError context = some reason := by
  rcases herror : context.deferredError with _ | e
  · rcases huser : context.user with _ | user
    · exact ⟨"access denied", by simp only [admissionError, herror, huser]⟩
    · exact absurd ⟨name, user, hname, herror, huser⟩ h
  · exact ⟨e, by simp only [admissionError, herror]⟩

/-- A channel is opened. -/
theorem opened (ht : Tracks context h events) (channel : ChannelId) (kind : ChannelKind) :
    Tracks context (h.openChannel channel kind).1 (events ++ [.opened channel kind]) ∧
      Answers context events (.opened channel kind) (h.openChannel channel kind).2 := by
  obtain ⟨rfl, hrelayed, hlocals⟩ := ht
  have hsameRelayed (hnot : ¬ ∃ name user, Relayable h.context name user) (other : ChannelId) :
      other ∈ h.relayed ↔ Relayed h.context other (events ++ [.opened channel kind]) := by
    rw [relayed_opened, hrelayed]
    exact ⟨.inr, fun hor => hor.resolve_left fun hnew => hnot hnew.1⟩
  have hsameLocals (hnot : ¬ (¬ ForHost h.context ∧ kind = .session)) (other : ChannelId) :
      other ∈ h.locals ↔ Local h.context other (events ++ [.opened channel kind]) := by
    rw [local_opened, hlocals]
    exact ⟨.inr, fun hor => hor.resolve_left fun hnew => hnot ⟨hnew.1, hnew.2.2⟩⟩
  by_cases hhost : ForHost h.context
  · obtain ⟨name, hname⟩ := hhost
    have hlocals' := hsameLocals fun hnot => hnot.1 ⟨name, hname⟩
    by_cases hrelayable : ∃ name user, Relayable h.context name user
    · obtain ⟨name, user, hrel⟩ := hrelayable
      have hopen : h.openChannel channel kind =
          ({ h with relayed := h.relayed ++ [channel] },
            [.accept channel, .relay channel user name kind]) := by
        simp only [Handler.openChannel, hrel.forHost, admissionError, hrel.untroubled, hrel.ofUser]
      rw [hopen]
      refine ⟨⟨rfl, fun other => ?_, hlocals'⟩, .relays hrel⟩
      rw [relayed_opened, ← hrelayed other, List.mem_append, List.mem_singleton, or_comm]
      exact or_congr_left (and_iff_right ⟨name, user, hrel⟩).symm
    · obtain ⟨reason, hreason⟩ := admissionError_of_not_relayable hname hrelayable
      have hopen : h.openChannel channel kind = (h, [.accept channel, .refuse channel reason]) := by
        simp only [Handler.openChannel, hname, hreason]
      rw [hopen]
      exact ⟨⟨rfl, hsameRelayed hrelayable, hlocals'⟩, .refuses ⟨name, hname⟩ hreason⟩
  · have hrelayed' := hsameRelayed fun hrelayable => hhost (forHost_of_relayable hrelayable)
    have hopen : h.openChannel channel kind =
        if kind = .session then ({ h with locals := h.locals ++ [channel] }, [.accept channel])
        else (h, [.decline channel]) := by
      unfold Handler.openChannel
      split
      · next name hname => exact absurd ⟨name, hname⟩ hhost
      · rfl
    rw [hopen]
    by_cases hkind : kind = .session
    · subst hkind
      rw [if_pos rfl]
      refine ⟨⟨rfl, hrelayed', fun other => ?_⟩, .accepts hhost⟩
      rw [local_opened, ← hlocals other, List.mem_append, List.mem_singleton, or_comm]
      exact or_congr_left ⟨fun heq => ⟨hhost, heq, rfl⟩, fun hnew => hnew.2.1⟩
    · rw [if_neg hkind]
      exact ⟨⟨rfl, hrelayed', hsameLocals fun hnot => hkind hnot.2⟩, .declines hhost hkind⟩

/-- A request comes. -/
theorem request (ht : Tracks context h events) (channel : ChannelId) (request : Request) :
    Tracks context (h.route channel request).1 (events ++ [.request channel request]) ∧
      Answers context events (.request channel request) (h.route channel request).2 := by
  obtain ⟨rfl, hrelayed, hlocals⟩ := ht
  have hrelayed' (other : ChannelId) :
      other ∈ h.relayed ↔ Relayed h.context other (events ++ [.request channel request]) := by
    rw [relayed_of_other (.request channel request) nofun nofun, hrelayed]
  have hlocals' (hnot : ¬ (StartsProgram request ∧ Local h.context channel events)) (other : ChannelId) :
      other ∈ h.locals ↔ Local h.context other (events ++ [.request channel request]) := by
    rw [local_request, hlocals]
    refine ⟨fun hlocal => ⟨hlocal, fun hboth => hnot ⟨hboth.1, hboth.2 ▸ hlocal⟩⟩, And.left⟩
  unfold Handler.route
  by_cases hchannel : channel ∈ h.relayed
  · rw [if_pos hchannel]
    have hrel := (hrelayed channel).mp hchannel
    have hnotlocal : ¬ Local h.context channel events := fun hlocal => hlocal.1 (forHost_of_relayable hrel.1)
    exact ⟨⟨rfl, hrelayed', hlocals' fun hboth => hnotlocal hboth.2⟩, .passes hrel rfl⟩
  rw [if_neg hchannel]
  have hnot : ¬ Relayed h.context channel events := fun hrel => hchannel ((hrelayed channel).mpr hrel)
  by_cases hlocal : channel ∉ h.locals
  · rw [if_pos hlocal]
    have hnotlocal : ¬ Local h.context channel events := fun hloc =>
      hlocal ((hlocals channel).mpr hloc)
    exact ⟨⟨rfl, hrelayed', hlocals' fun hboth => hnotlocal hboth.2⟩, .fails hnot fun hloc =>
      absurd hloc hnotlocal⟩
  rw [if_neg hlocal]
  have hloc : Local h.context channel events := (hlocals channel).mp (not_not.mp hlocal)
  cases request with
  | pty | env | windowChange =>
    exact ⟨⟨rfl, hrelayed', hlocals' fun hboth => hboth.1⟩, .agrees hloc trivial⟩
  | shell | exec =>
    refine ⟨⟨rfl, hrelayed', fun other => ?_⟩, .replies hloc trivial⟩
    rw [local_request, ← hlocals other]
    simp [Handler.replyLocally, StartsProgram]
  | signal | subsystem | exitStatus | exitSignal =>
    exact ⟨⟨rfl, hrelayed', hlocals' fun hboth => hboth.1⟩, .fails hnot fun _ => ⟨id, id⟩⟩

/-- Something comes on a channel that is for its queues or for nobody. -/
theorem passes {channel : ChannelId} {input : FeedInput} (ht : Tracks context h events)
    (event : ConnectionEvent) (hpassed : passed? event = some (channel, input))
    (hinput : ∀ request, input ≠ .request request) :
    Answers context events event (if channel ∈ h.relayed then [.feed channel input] else []) := by
  by_cases hchannel : channel ∈ h.relayed
  · rw [if_pos hchannel]
    exact .passes ((ht.relayed channel).mp hchannel) hpassed
  · rw [if_neg hchannel]
    exact .ignores (fun hrel => hchannel ((ht.relayed channel).mpr hrel)) hpassed hinput

/-- Whatever happens, the handler keeps track of the channels, and its answer is the right one. -/
theorem step (ht : Tracks context h events) (event : ConnectionEvent) :
    Tracks context (h.step event).1 (events ++ [event]) ∧
      Answers context events event ((h.step event).2 ++ Connection.libraryAnswer event) := by
  have hidle (hopened : ∀ channel kind, event ≠ .opened channel kind)
      (hclosed : ∀ channel, event ≠ .closed channel)
      (hrequest : ∀ channel request, event ≠ .request channel request) :
      Tracks context h (events ++ [event]) :=
    { same := ht.same
      relayed := fun other => by rw [relayed_of_other event hopened hclosed, ht.relayed]
      locals := fun other => by rw [local_of_other event hopened hclosed hrequest, ht.locals] }
  cases event with
  | opened channel kind => simpa [Handler.step, Connection.libraryAnswer] using ht.opened channel kind
  | request channel request => simpa [Handler.step, Connection.libraryAnswer] using ht.request channel request
  | data channel chunk =>
    refine ⟨hidle nofun nofun nofun, ?_⟩
    simpa [Handler.step, Connection.libraryAnswer] using ht.passes (.data channel chunk) rfl nofun
  | eof channel =>
    refine ⟨hidle nofun nofun nofun, ?_⟩
    simpa [Handler.step, Connection.libraryAnswer] using ht.passes (.eof channel) rfl nofun
  | closed channel =>
    refine ⟨⟨ht.same, fun other => ?_, fun other => ?_⟩, ?_⟩
    · rw [relayed_closed, ← ht.relayed other]
      simp [Handler.step]
    · rw [local_closed, ← ht.locals other]
      simp [Handler.step]
    · simpa [Handler.step, Connection.libraryAnswer] using ht.passes (.closed channel) rfl nofun
  | display channel => exact ⟨hidle nofun nofun nofun, .display⟩
  | agent channel => exact ⟨hidle nofun nofun nofun, .agent⟩

end Tracks

end Gatehouse.Bastion
