import Gatehouse.Proofs.Bastion.Channels
import Gatehouse.Proofs.Bastion.Lines
import Mathlib.Data.List.Nodup

/-!
# The channels of a connection are kept apart

`channels_are_kept_apart`: whatever a user sends on one connection and however the relays keep up with it, no
channel is both relayed and the bastion's own, each relay has queues of its own which get the data of its
channel and nothing else, in order and up to the end, and each channel of the bastion's own is given its
answer once, after which every request on it fails.

Proof. One relation ties a connection to its history (`Kept`): the handler tracks the channels and has
answered everything as it should, the queues stand for the relays that have been started (`Placed`), and each
pair holds what was sent on its channel (`Line.Keeps`). The handler holds at most one pair for a channel
(`Kept.held_unique`), as a later opening of the same number makes it let go of the earlier one. An event
concerns that pair at most, and leaves the others as they are (`Kept.callFeeding`).
-/

namespace Gatehouse.Bastion

open Relay (AskId Chunk Feed FeedVerdict Queue Request)

/-! ### All pairs of queues -/

/-- The data of a channel that the handler waits with. -/
def HandlerCall.waitingFor (doing : HandlerCall) (l : Line) : List Chunk :=
  match doing with
  | .offering channel chunk => if l.held && l.channel == channel then [chunk] else []
  | _ => []

namespace Connection

variable {context : Context} {c c' : Connection} {event : ConnectionEvent}
  {effects : List HandlerEffect} {lines : List Line}
  {past : List (ConnectionEvent × List HandlerEffect)}

/-- Each relay that has been started has its queues, and no others are there. -/
structure Placed (past : List (ConnectionEvent × List HandlerEffect)) (lines : List Line) : Prop where
  opened : ∀ l ∈ lines, ∃ user name kind, past[l.opening]? =
    some (.opened l.channel kind, [.accept l.channel, .relay l.channel user name kind])
  nodup : (lines.map Line.opening).Nodup
  complete : ∀ (n : Nat) event effects channel user name kind, past[n]? = some (event, effects) →
    .relay channel user name kind ∈ effects → ∃ l ∈ lines, l.opening = n ∧ l.channel = channel

/-- The connection answers everything as it should, and its queues get what was sent on their channels. -/
structure Kept (context : Context) (c : Connection) : Prop where
  tracks : Tracks context c.handler c.events
  answers : Throughout (fun before entry => Answers context (before.map Prod.fst) entry.1 entry.2) c.trace
  placed : Placed c.trace c.lines
  keeps : ∀ l ∈ c.lines, l.Keeps (c.events.drop (l.opening + 1)) (c.doing.waitingFor l)

theorem Placed.lt (h : Placed past lines) {l : Line} (hl : l ∈ lines) : l.opening < past.length := by
  obtain ⟨user, name, kind, hopened⟩ := h.opened l hl
  exact (List.getElem?_eq_some_iff.mp hopened).1

theorem Placed.map (h : Placed past lines) {f : Line → Line}
    (hf : ∀ l, (f l).opening = l.opening ∧ (f l).channel = l.channel) :
    Placed past (lines.map f) := by
  refine ⟨fun l hl => ?_, ?_, fun n event effects channel user name kind hn hmem => ?_⟩
  · obtain ⟨old, hold, rfl⟩ := List.mem_map.mp hl
    rw [(hf old).1, (hf old).2]
    exact h.opened old hold
  · have hsame : (lines.map f).map Line.opening = lines.map Line.opening := by
      rw [List.map_map]
      exact List.map_congr_left fun l _ => (hf l).1
    rw [hsame]
    exact h.nodup
  · obtain ⟨l, hl, rfl, rfl⟩ := h.complete n event effects channel user name kind hn hmem
    exact ⟨f l, List.mem_map_of_mem hl, hf l⟩

/-- Something happens for which no relay is started. -/
theorem Placed.append (h : Placed past lines)
    (hnone : ∀ channel user name kind, .relay channel user name kind ∉ effects) :
    Placed (past ++ [(event, effects)]) lines where
  opened := fun l hl => by
    obtain ⟨user, name, kind, hopened⟩ := h.opened l hl
    exact ⟨user, name, kind, by
      rw [List.getElem?_append_left (List.getElem?_eq_some_iff.mp hopened).1]
      exact hopened⟩
  nodup := h.nodup
  complete := fun n event' effects' channel user name kind hn hmem => by
    by_cases hlt : n < past.length
    · rw [List.getElem?_append_left hlt] at hn
      exact h.complete n event' effects' channel user name kind hn hmem
    · have hlast := List.mem_of_getElem? (List.getElem?_append_right (Nat.not_lt.mp hlt) ▸ hn)
      cases List.mem_singleton.mp hlast
      exact absurd hmem (hnone channel user name kind)

/-- A relay is started. -/
theorem Placed.add {channel : ChannelId} {user : User} {name : String} {kind : ChannelKind}
    (h : Placed past lines) :
    Placed (past ++ [(.opened channel kind, [.accept channel, .relay channel user name kind])])
      (lines ++ [{ channel, opening := past.length }]) where
  opened := fun l hl => by
    rcases List.mem_append.mp hl with hold | hnew
    · obtain ⟨user, name, kind, hopened⟩ := h.opened l hold
      exact ⟨user, name, kind, by
        rw [List.getElem?_append_left (h.lt hold)]
        exact hopened⟩
    · rw [List.mem_singleton.mp hnew]
      exact ⟨user, name, kind, List.getElem?_concat_length⟩
  nodup := by
    rw [List.map_append]
    refine (List.perm_append_singleton _ _).nodup_iff.mpr (List.nodup_cons.mpr ⟨fun hmem => ?_, h.nodup⟩)
    obtain ⟨l, hl, heq⟩ := List.mem_map.mp hmem
    exact Nat.lt_irrefl _ (heq ▸ h.lt hl)
  complete := fun n event effects channel' user' name' kind' hn hmem => by
    by_cases hlt : n < past.length
    · rw [List.getElem?_append_left hlt] at hn
      obtain ⟨l, hl, hboth⟩ := h.complete n event effects channel' user' name' kind' hn hmem
      exact ⟨l, List.mem_append_left _ hl, hboth⟩
    · have hlength := (List.getElem?_eq_some_iff.mp hn).1
      rw [List.length_append, List.length_singleton] at hlength
      obtain rfl : n = past.length := by omega
      rw [List.getElem?_concat_length] at hn
      cases hn
      simp only [List.mem_cons, reduceCtorEq, HandlerEffect.relay.injEq, List.not_mem_nil, or_false,
        false_or] at hmem
      exact ⟨_, List.mem_append_right _ List.mem_cons_self, rfl, hmem.1.symm⟩

/-- An effect that has nothing to do with queues. -/
def Quiet : HandlerEffect → Prop
  | .relay .. | .feed .. => False
  | .accept _ | .decline _ | .refuse .. | .send .. => True

theorem carryOut_of_quiet (hquiet : ∀ e ∈ effects, Quiet e) (c : Connection) :
    effects.foldl carryOut c = c := by
  induction effects generalizing c with
  | nil => rfl
  | cons e effects ih =>
    have hfirst : c.carryOut e = c := by
      have he := hquiet e List.mem_cons_self
      cases e with
      | relay | feed => exact he.elim
      | accept | decline | refuse | send => rfl
    rw [List.foldl_cons, hfirst]
    exact ih (fun e he => hquiet e (List.mem_cons_of_mem _ he)) c

/-- What the handler wants done about queues. -/
theorem effects_cases {h : Handler} {events : List ConnectionEvent} (ht : Tracks context h events)
    (event : ConnectionEvent) :
    (∃ channel kind name user, event = .opened channel kind ∧ Relayable context name user ∧
      (h.step event).2 = [.accept channel, .relay channel user name kind]) ∨
    (∃ channel input, Relayed context channel events ∧ passed? event = some (channel, input) ∧
      (h.step event).2 = [.feed channel input]) ∨
    (∀ e ∈ (h.step event).2, Quiet e) ∧
      (∀ channel kind, event = .opened channel kind → ¬ ∃ name user, Relayable context name user) ∧
      ∀ channel input, passed? event = some (channel, input) → ¬ Relayed context channel events := by
  obtain ⟨-, hanswer⟩ := ht.step event
  have hlibrary {channel : ChannelId} {input : FeedInput} (hpassed : passed? event = some (channel, input)) :
      libraryAnswer event = [] := by
    cases event with
    | opened | display | agent => cases hpassed
    | data | eof | closed | request => rfl
  generalize heffects : (h.step event).2 ++ libraryAnswer event = effects at hanswer
  have hquiet (hall : ∀ e ∈ effects, Quiet e) : ∀ e ∈ (h.step event).2, Quiet e := fun e he =>
    hall e (heffects ▸ List.mem_append_left _ he)
  have hnothost (hnot : ¬ ForHost context) : ¬ ∃ name user, Relayable context name user :=
    fun hrel => hnot (forHost_of_relayable hrel)
  cases hanswer with
  | @relays channel kind name user hrel =>
    rw [show libraryAnswer (.opened channel kind) = [] from rfl, List.append_nil] at heffects
    exact .inl ⟨channel, kind, name, user, rfl, hrel, heffects⟩
  | @passes _ channel input hrel hpassed =>
    rw [hlibrary hpassed, List.append_nil] at heffects
    exact .inr (.inl ⟨channel, input, hrel, hpassed, heffects⟩)
  | refuses _ hreason =>
    refine .inr (.inr ⟨hquiet (by simp [Quiet]), fun _ _ _ hrel => ?_, by simp [passed?]⟩)
    obtain ⟨name, user, hrel⟩ := hrel
    rw [admissionError, hrel.untroubled, hrel.ofUser] at hreason
    cases hreason
  | accepts hnot | declines hnot =>
    exact .inr (.inr ⟨hquiet (by simp [Quiet]), fun _ _ _ => hnothost hnot, by simp [passed?]⟩)
  | ignores hnot hpassed =>
    refine .inr (.inr ⟨hquiet fun _ he => absurd he List.not_mem_nil, ?_, fun other input' hpassed' => ?_⟩)
    · rintro channel kind rfl
      cases hpassed
    · rw [hpassed] at hpassed'
      cases hpassed'
      exact hnot
  | replies hlocal =>
    refine .inr (.inr ⟨hquiet fun e he => ?_, by simp, fun _ _ _ hrel => hnothost hlocal.1 hrel.1⟩)
    obtain ⟨message, -, rfl⟩ := List.mem_map.mp he
    exact trivial
  | agrees hlocal =>
    exact .inr (.inr ⟨hquiet (by simp [Quiet]), by simp, fun _ _ _ hrel => hnothost hlocal.1 hrel.1⟩)
  | fails hnot =>
    refine .inr (.inr ⟨hquiet (by simp [Quiet]), by simp, fun _ _ hpassed => ?_⟩)
    cases hpassed
    exact hnot
  | display | agent => exact .inr (.inr ⟨hquiet (by simp [Quiet]), by simp, by simp [passed?]⟩)

namespace Kept

theorem start (context : Context) : Kept context (.start context) where
  tracks := .start context
  answers := .nil
  placed := ⟨nofun, .nil, fun n _ _ _ _ _ _ hn => by cases hn⟩
  keeps := nofun

/-- The opening of the channel. -/
theorem opening (h : Kept context c) {l : Line} (hl : l ∈ c.lines) :
    (∃ name user, Relayable context name user) ∧ ∃ kind earlier,
      c.events = earlier ++ .opened l.channel kind :: c.events.drop (l.opening + 1) := by
  obtain ⟨user, name, kind, hopened⟩ := h.placed.opened l hl
  obtain ⟨hlt, hget⟩ := List.getElem?_eq_some_iff.mp hopened
  have htrace : c.trace = c.trace.take l.opening ++
      (.opened l.channel kind, [.accept l.channel, .relay l.channel user name kind]) ::
        c.trace.drop (l.opening + 1) := by
    rw [← hget, ← List.drop_eq_getElem_cons hlt, List.take_append_drop]
  refine ⟨?_, kind, (c.trace.take l.opening).map Prod.fst, ?_⟩
  · cases h.answers _ _ _ htrace with
    | relays hrel => exact ⟨name, user, hrel⟩
  · have hevents := congrArg (List.map Prod.fst) htrace
    rw [List.map_append, List.map_cons, List.map_drop] at hevents
    exact hevents

/-- The handler relays the channels whose queues it holds. -/
theorem relayed_of_held (h : Kept context c) {l : Line} (hl : l ∈ c.lines) (hheld : l.held = true) :
    Relayed context l.channel c.events := by
  obtain ⟨hrel, kind, earlier, hevents⟩ := h.opening hl
  refine ⟨hrel, earlier, _, _, hevents, ⟨kind, rfl⟩, fun e he hclosed => ?_⟩
  exact (h.keeps l hl).held.mp hheld ⟨e, he, .inl hclosed⟩

/-- The handler holds one pair of queues for a channel. -/
theorem held_unique (h : Kept context c) {l l' : Line} (hl : l ∈ c.lines) (hl' : l' ∈ c.lines)
    (hheld : l.held = true) (hheld' : l'.held = true) (hsame : l.channel = l'.channel) : l = l' := by
  have hlater {l l' : Line} (hl : l ∈ c.lines) (hl' : l' ∈ c.lines) (hheld : l.held = true)
      (hsame : l.channel = l'.channel) : ¬ l.opening < l'.opening := by
    intro hlt
    obtain ⟨user, name, kind, hopened⟩ := h.placed.opened l' hl'
    have hevent : c.events[l'.opening]? = some (.opened l'.channel kind) := by
      rw [events, List.getElem?_map, hopened]
      rfl
    refine (h.keeps l hl).held.mp hheld ⟨.opened l'.channel kind, ?_, .inr ⟨kind, by rw [hsame]⟩⟩
    refine List.mem_iff_getElem?.mpr ⟨l'.opening - (l.opening + 1), ?_⟩
    rw [List.getElem?_drop, Nat.add_sub_cancel' hlt]
    exact hevent
  have hopening : l.opening = l'.opening := Nat.le_antisymm
    (Nat.not_lt.mp (hlater hl' hl hheld' hsame.symm)) (Nat.not_lt.mp (hlater hl hl' hheld hsame))
  exact List.inj_on_of_nodup_map h.placed.nodup hl hl' hopening

/-- Nothing happens but that a request is settled. -/
theorem of_same (h : Kept context c) (hhandler : c'.handler = c.handler) (hlines : c'.lines = c.lines)
    (htrace : c'.trace = c.trace) (hdoing : c'.doing.waitingFor = c.doing.waitingFor) :
    Kept context c' where
  tracks := by
    rw [hhandler, events, htrace]
    exact h.tracks
  answers := by
    rw [htrace]
    exact h.answers
  placed := by
    rw [htrace, hlines]
    exact h.placed
  keeps := by
    rw [hlines, events, htrace, hdoing]
    exact h.keeps

/-- Something is done to each pair of queues, while nothing happens on the connection. -/
theorem worked (h : Kept context c) (f : Line → Line) (doing : HandlerCall)
    (told : List (ChannelId × Bool)) (hf : ∀ l, (f l).opening = l.opening ∧ (f l).channel = l.channel)
    (hkeeps : ∀ l ∈ c.lines, l.Keeps (c.events.drop (l.opening + 1)) (c.doing.waitingFor l) →
      (f l).Keeps (c.events.drop (l.opening + 1)) (doing.waitingFor (f l))) :
    Kept context { c with lines := c.lines.map f, doing, told } where
  tracks := h.tracks
  answers := h.answers
  placed := h.placed.map hf
  keeps := fun l hl => by
    obtain ⟨old, hold, rfl⟩ := List.mem_map.mp hl
    rw [(hf old).1]
    exact hkeeps old hold (h.keeps old hold)

/-- A relay does something. -/
theorem withLine (h : Kept context c) (opening : Nat) {f : Line → Line}
    (hf : ∀ l, (f l).opening = l.opening ∧ (f l).channel = l.channel ∧ (f l).held = l.held)
    (hkeeps : ∀ {l : Line} {later waiting}, l.Keeps later waiting → (f l).Keeps later waiting) :
    Kept context (c.withLine opening f) := by
  refine h.worked _ c.doing c.told (fun l => ?_) fun l _ hkept => ?_
  · split_ifs
    · exact ⟨(hf l).1, (hf l).2.1⟩
    · exact ⟨rfl, rfl⟩
  · have hwaiting : c.doing.waitingFor (f l) = c.doing.waitingFor l := by
      obtain ⟨-, hchannel, hheld⟩ := hf l
      simp only [HandlerCall.waitingFor, hchannel, hheld]
    split_ifs
    · rw [hwaiting]
      exact hkeeps hkept
    · exact hkept

theorem deliver_same (c : Connection) (verdicts : List FeedVerdict) :
    (c.deliver verdicts).handler = c.handler ∧ (c.deliver verdicts).lines = c.lines ∧
      (c.deliver verdicts).trace = c.trace ∧
      (c.deliver verdicts).doing.waitingFor = c.doing.waitingFor := by
  induction verdicts generalizing c with
  | nil => exact ⟨rfl, rfl, rfl, rfl⟩
  | cons v verdicts ih =>
    have hfirst : c.deliver [v] = c ∨ ∃ channel asker, c.doing = .awaiting channel asker ∧
        c.deliver [v] = c.settle channel (some v.accepted) := by
      simp only [deliver, List.foldl_cons, List.foldl_nil]
      split
      · next channel asker hdoing =>
        split_ifs
        · exact .inr ⟨channel, asker, hdoing, rfl⟩
        · exact .inl rfl
      · exact .inl rfl
    have hrest := ih (c.deliver [v])
    have hcons : c.deliver (v :: verdicts) = (c.deliver [v]).deliver verdicts := rfl
    rw [hcons]
    rcases hfirst with hsame | ⟨channel, asker, hdoing, hsettled⟩
    · rw [hsame] at hrest ⊢
      exact hrest
    · rw [hsettled] at hrest ⊢
      refine ⟨hrest.1, hrest.2.1, hrest.2.2.1, hrest.2.2.2.trans ?_⟩
      rw [hdoing]
      rfl

theorem withRequests (h : Kept context c) (opening : Nat) {f : Feed → Feed × List FeedVerdict}
    (hf : ∀ feed, (f feed).1.data = feed.data) : Kept context (c.withRequests opening f) := by
  have hkept : Kept context (c.withLine opening fun l => { l with feed := (f l.feed).1 }) :=
    h.withLine opening (fun _ => ⟨rfl, rfl, rfl⟩) fun hkeeps => hkeeps.of_data (hf _)
  obtain ⟨hhandler, hlines, htrace, hdoing⟩ := deliver_same
    (c.withLine opening fun l => { l with feed := (f l.feed).1 })
    (c.lines.flatMap fun l => if l.opening = opening then (f l.feed).2 else [])
  exact hkept.of_same hhandler hlines htrace hdoing

/-- What a call of the handler leaves, apart from the queues. -/
theorem called (h : Kept context c) (event : ConnectionEvent) {lines : List Line} {doing : HandlerCall}
    {nextAsker : AskId} {told : List (ChannelId × Bool)}
    (hplaced : Placed (c.trace ++ [(event, (c.handler.step event).2 ++ libraryAnswer event)]) lines)
    (hkeeps : ∀ l ∈ lines, l.Keeps ((c.events ++ [event]).drop (l.opening + 1)) (doing.waitingFor l)) :
    Kept context {
      handler := (c.handler.step event).1, lines, doing, nextAsker, told
      trace := c.trace ++ [(event, (c.handler.step event).2 ++ libraryAnswer event)] } := by
  obtain ⟨htracks, hanswers⟩ := h.tracks.step event
  have hevents : (c.trace ++ [(event, (c.handler.step event).2 ++ libraryAnswer event)]).map Prod.fst =
      c.events ++ [event] := List.map_append
  exact {
    tracks := by
      rw [events, hevents]
      exact htracks
    answers := h.answers.concat hanswers
    placed := hplaced
    keeps := by
      rw [events, hevents]
      exact hkeeps }

/-- A call of the handler for which no relay is started does something to each pair of queues. -/
theorem calledWith (h : Kept context c) (event : ConnectionEvent) {f : Line → Line} {doing : HandlerCall}
    {nextAsker : AskId} {told : List (ChannelId × Bool)}
    (hf : ∀ l, (f l).opening = l.opening ∧ (f l).channel = l.channel)
    (hnone : ∀ channel user name kind,
      .relay channel user name kind ∉ (c.handler.step event).2 ++ libraryAnswer event)
    (hkeeps : ∀ l ∈ c.lines, (f l).Keeps (c.events.drop (l.opening + 1) ++ [event])
      (doing.waitingFor (f l))) :
    Kept context {
      handler := (c.handler.step event).1, lines := c.lines.map f, doing, nextAsker, told
      trace := c.trace ++ [(event, (c.handler.step event).2 ++ libraryAnswer event)] } := by
  refine h.called event ((h.placed.append hnone).map hf) fun l hl => ?_
  obtain ⟨old, hold, rfl⟩ := List.mem_map.mp hl
  have hlt : old.opening + 1 ≤ c.events.length := by
    rw [events, List.length_map]
    exact h.placed.lt hold
  rw [(hf old).1, List.drop_append_of_le_length hlt]
  exact hkeeps old hold

end Kept

/-! ### Calls of the handler -/

theorem call_eq (c : Connection) (event : ConnectionEvent) {c₁ : Connection}
    (h : (c.handler.step event).2.foldl carryOut { c with handler := (c.handler.step event).1 } = c₁) :
    c.call event =
      { c₁ with trace := c₁.trace ++ [(event, (c.handler.step event).2 ++ libraryAnswer event)] } := by
  subst h
  rfl

theorem unconcerned {channel : ChannelId} (hopened : ∀ kind, event ≠ .opened channel kind)
    (hpassed : ∀ input, passed? event ≠ some (channel, input)) :
    ends channel event = false ∧ chunk? channel event = none := by
  cases event <;> simp_all [ends, chunk?, passed?]

theorem no_relay_of_quiet (hquiet : ∀ e ∈ effects, Quiet e) {user : User} {name : String}
    {kind : ChannelKind} {channel : ChannelId} : .relay channel user name kind ∉ effects :=
  fun hmem => hquiet _ hmem

theorem libraryAnswer_quiet (event : ConnectionEvent) : ∀ e ∈ libraryAnswer event, Quiet e := by
  cases event <;> simp [libraryAnswer, Quiet]

theorem line?_some {channel : ChannelId} {l : Line} (h : c.line? channel = some l) :
    l ∈ c.lines ∧ l.held = true ∧ l.channel = channel := by
  have hfound := List.find?_some h
  simp only [Bool.and_eq_true, beq_iff_eq] at hfound
  exact ⟨List.mem_of_find?_eq_some h, hfound⟩

/-- Requests have a queue of their own. -/
theorem ask_data (feed : Feed) (asker : AskId) (request : Request) :
    (feed.ask asker request).1.data = feed.data := by
  unfold Feed.ask
  grind

theorem takeRequest_data (feed : Feed) : feed.takeRequest.1.data = feed.data := by
  unfold Feed.takeRequest
  split <;> rfl

theorem map_id_feed (channel : ChannelId) :
    (lines.map fun l => if l.held && l.channel == channel then { l with feed := id l.feed } else l) =
      lines := by
  simp only [id, ite_self, List.map_id']

/-- To pass on a request is nothing to the data. -/
theorem ask_cases (c : Connection) (channel : ChannelId) (asker : AskId) (request : Request) :
    ∃ (f : Feed → Feed) (doing : HandlerCall) (told : List (ChannelId × Bool)),
      (∀ feed, (f feed).data = feed.data) ∧ (∀ l, doing.waitingFor l = []) ∧
      c.ask channel asker request = { c with
        doing, told
        lines := c.lines.map fun l =>
          if l.held && l.channel == channel then { l with feed := f l.feed } else l } := by
  unfold ask
  split
  · exact ⟨id, .idle, c.told, fun _ => rfl, fun _ => rfl, by rw [map_id_feed]⟩
  · split
    · exact ⟨id, .asking channel asker request, c.told, fun _ => rfl, fun _ => rfl, by rw [map_id_feed]⟩
    · exact ⟨_, .awaiting channel asker, c.told, fun feed => ask_data feed asker request, fun _ => rfl, rfl⟩
    · exact ⟨_, .idle, _, fun feed => ask_data feed asker request, fun _ => rfl, rfl⟩

theorem offer_some {feed feed' : Feed} {chunk rest : Chunk}
    (h : feed.offer chunk = (feed', some rest)) : feed' = feed ∧ rest = chunk := by
  rcases Queue.push_cases feed.data chunk with ⟨-, hpush⟩ | ⟨-, -, hpush⟩ | ⟨-, -, hpush | hpush⟩ <;>
    simp only [Feed.offer, hpush, Prod.mk.injEq, reduceCtorEq, and_false, Option.some.injEq] at h
  exact ⟨h.1.symm, h.2.symm⟩

/-- A block of data is offered to the queues of its channel, and the handler waits with what they do not
take. -/
theorem offer_cases (c : Connection) (channel : ChannelId) (chunk : Chunk)
    (hunique : ∀ l ∈ c.lines, ∀ l' ∈ c.lines, l.held = true → l'.held = true →
      l.channel = l'.channel → l = l') :
    ∃ (f : Feed → Feed) (doing : HandlerCall),
      c.offer channel chunk = { c with
        doing
        lines := c.lines.map fun l =>
          if l.held && l.channel == channel then { l with feed := f l.feed } else l } ∧
      (∀ l : Line, ¬ (l.held = true ∧ l.channel = channel) → doing.waitingFor l = []) ∧
      ∀ l ∈ c.lines, l.held = true → l.channel = channel →
        ∃ rest, l.feed.offer chunk = (f l.feed, rest) ∧ doing.waitingFor l = rest.toList := by
  rcases hline : c.line? channel with _ | found
  · have hnone := List.find?_eq_none.mp hline
    refine ⟨id, .idle, ?_, fun _ _ => rfl, fun l hl hheld hchannel => ?_⟩
    · rw [map_id_feed]
      simp only [offer, hline]
    · exact absurd (by simp [hheld, hchannel]) (hnone l hl)
  obtain ⟨hmem, hfound, hchannel'⟩ := line?_some hline
  have honly (l) (hl : l ∈ c.lines) (hheld : l.held = true) (hchannel : l.channel = channel) :
      l = found := hunique l hl found hmem hheld hfound (hchannel.trans hchannel'.symm)
  rcases hoffer : found.feed.offer chunk with ⟨feed, _ | rest⟩
  · refine ⟨fun feed => (feed.offer chunk).1, .idle, ?_, fun _ _ => rfl, fun l hl hheld hchannel => ?_⟩
    · simp only [offer, hline, hoffer]
      rfl
    · obtain rfl := honly l hl hheld hchannel
      exact ⟨none, Prod.ext rfl (by rw [hoffer]), rfl⟩
  · refine ⟨id, .offering channel rest, ?_, fun l hnot => if_neg (by simpa using hnot),
      fun l hl hheld hchannel => ?_⟩
    · rw [map_id_feed]
      simp only [offer, hline, hoffer]
    · obtain rfl := honly l hl hheld hchannel
      rw [(offer_some hoffer).1] at hoffer
      exact ⟨some rest, hoffer, if_pos (by simp [hheld, hchannel])⟩

namespace Kept

/-- The handler does nothing about queues. -/
theorem callQuietly (h : Kept context c) {event : ConnectionEvent}
    (hquiet : ∀ e ∈ (c.handler.step event).2, Quiet e)
    (hopened : ∀ channel kind, event = .opened channel kind → ¬ ∃ name user, Relayable context name user)
    (hpassed : ∀ channel input, passed? event = some (channel, input) →
      ¬ Relayed context channel c.events) : Kept context (c.call event) := by
  rw [call_eq c event (carryOut_of_quiet hquiet _)]
  rw [← List.map_id c.lines]
  refine h.calledWith event (fun _ => ⟨rfl, rfl⟩) (fun _ _ _ _ => no_relay_of_quiet fun e he => ?_)
    fun l hl => ?_
  · exact (List.mem_append.mp he).elim (hquiet e) (libraryAnswer_quiet event e)
  · refine (h.keeps l hl).ignores fun hheld => unconcerned (fun kind heq => ?_) fun input hinput => ?_
    · exact hopened _ kind heq (h.opening hl).1
    · exact hpassed _ input hinput (h.relayed_of_held hl hheld)

/-- The handler does something to the queues that it holds for a channel, or leaves them and waits. -/
theorem callFeeding (h : Kept context c) {event : ConnectionEvent} {channel : ChannelId}
    {input : FeedInput} (hpassed : passed? event = some (channel, input))
    (heffects : (c.handler.step event).2 = [.feed channel input]) (f : Line → Line)
    (doing : HandlerCall) (nextAsker : AskId) (told : List (ChannelId × Bool))
    (hf : ∀ l, (f l).opening = l.opening ∧ (f l).channel = l.channel)
    (hcarried : { c with handler := (c.handler.step event).1 }.carryOut (.feed channel input) =
      { c with
        handler := (c.handler.step event).1, doing, nextAsker, told
        lines := c.lines.map fun l => if l.held && l.channel == channel then f l else l })
    (hother : ∀ l : Line, ¬ (l.held = true ∧ l.channel = channel) → doing.waitingFor l = [])
    (hkeeps : ∀ l ∈ c.lines, l.held = true → l.channel = channel →
      l.Keeps (c.events.drop (l.opening + 1)) [] →
      (f l).Keeps (c.events.drop (l.opening + 1) ++ [event]) (doing.waitingFor (f l)))
    (hidle : c.doing = .idle) : Kept context (c.call event) := by
  have hfold : (c.handler.step event).2.foldl carryOut { c with handler := (c.handler.step event).1 } =
      { c with
        handler := (c.handler.step event).1, doing, nextAsker, told
        lines := c.lines.map fun l => if l.held && l.channel == channel then f l else l } := by
    rw [heffects]
    exact hcarried
  rw [call_eq c event hfold]
  refine h.calledWith event (fun l => ?_) (fun _ _ _ _ hmem => ?_) fun l hl => ?_
  · split_ifs
    · exact hf l
    · exact ⟨rfl, rfl⟩
  · rw [heffects] at hmem
    rcases List.mem_append.mp hmem with hfirst | hlibrary
    · simp at hfirst
    · exact libraryAnswer_quiet event _ hlibrary
  · have hkept := h.keeps l hl
    rw [hidle] at hkept
    by_cases hheld : l.held = true ∧ l.channel = channel
    · have hcond : (l.held && l.channel == channel) = true := by
        rw [hheld.1, hheld.2, Bool.true_and]
        exact beq_self_eq_true _
      rw [if_pos hcond]
      exact hkeeps l hl hheld.1 hheld.2 hkept
    · have hcond : ¬ (l.held && l.channel == channel) = true := by
        simpa using hheld
      rw [if_neg hcond, hother l hheld]
      refine hkept.ignores fun hown => unconcerned (fun kind heq => ?_) fun input' hinput => ?_
      · rw [heq] at hpassed
        cases hpassed
      · rw [hpassed] at hinput
        cases hinput
        exact hheld ⟨hown, rfl⟩

/-- The handler is called for a block of data on a relayed channel. -/
theorem callData (h : Kept context c) {channel : ChannelId} {chunk : Chunk}
    (heffects : (c.handler.step (.data channel chunk)).2 = [.feed channel (.data chunk)])
    (hidle : c.doing = .idle) : Kept context (c.call (.data channel chunk)) := by
  obtain ⟨f, doing, hoffer, hothers, hheld⟩ := offer_cases
    { c with handler := (c.handler.step (.data channel chunk)).1 } channel chunk
    fun l hl l' hl' => h.held_unique hl hl'
  refine h.callFeeding rfl heffects (fun l => { l with feed := f l.feed }) doing c.nextAsker c.told
    (fun _ => ⟨rfl, rfl⟩) hoffer hothers (fun l hl hl' hchannel hkept => ?_) hidle
  obtain ⟨rest, hrest, hwaiting⟩ := hheld l hl hl' hchannel
  subst hchannel
  have hoffered := hkept.offers hrest
  rw [← hwaiting] at hoffered
  exact hoffered

/-- The handler is called for the end of the data on a relayed channel. -/
theorem callEof (h : Kept context c) {channel : ChannelId}
    (heffects : (c.handler.step (.eof channel)).2 = [.feed channel .eof])
    (hidle : c.doing = .idle) : Kept context (c.call (.eof channel)) := by
  refine h.callFeeding rfl heffects (fun l => { l with feed := l.feed.endData }) c.doing c.nextAsker
    c.told (fun _ => ⟨rfl, rfl⟩) rfl (fun _ _ => by rw [hidle]; rfl)
    (fun l hl hheld hchannel hkept => ?_) hidle
  subst hchannel
  rw [hidle]
  refine hkept.finishes (beq_self_eq_true _) rfl rfl ?_
  rw [hkept.held, released_concat]
  simp

/-- The handler is called for the end of a relayed channel. -/
theorem callClosed (h : Kept context c) {channel : ChannelId}
    (heffects : (c.handler.step (.closed channel)).2 = [.feed channel .close])
    (hidle : c.doing = .idle) : Kept context (c.call (.closed channel)) := by
  refine h.callFeeding rfl heffects Line.drop c.doing c.nextAsker c.told (fun _ => ⟨rfl, rfl⟩) rfl
    (fun _ _ => by rw [hidle]; rfl) (fun l hl hheld hchannel hkept => ?_) hidle
  subst hchannel
  rw [hidle]
  refine hkept.finishes (beq_self_eq_true _) rfl rfl ?_
  rw [released_concat]
  simp

/-- The handler is called for a request on a relayed channel. -/
theorem callRequest (h : Kept context c) {channel : ChannelId} {request : Request}
    (heffects : (c.handler.step (.request channel request)).2 = [.feed channel (.request request)])
    (hidle : c.doing = .idle) : Kept context (c.call (.request channel request)) := by
  obtain ⟨f, doing, told, hdata, hwaiting, hask⟩ := ask_cases
    { c with handler := (c.handler.step (.request channel request)).1, nextAsker := c.nextAsker + 1 }
    channel c.nextAsker request
  refine h.callFeeding rfl heffects (fun l => { l with feed := f l.feed }) doing (c.nextAsker + 1) told
    (fun _ => ⟨rfl, rfl⟩) hask (fun l _ => hwaiting l) (fun l _ _ _ hkept => ?_) hidle
  rw [hwaiting]
  exact (hkept.ignores fun _ => ⟨rfl, rfl⟩).of_data (hdata _)

/-- The handler is called for the opening of a channel that is relayed. -/
theorem callRelay (h : Kept context c) {channel : ChannelId} {kind : ChannelKind} {user : User}
    {name : String} (heffects : (c.handler.step (.opened channel kind)).2 =
      [.accept channel, .relay channel user name kind])
    (hidle : c.doing = .idle) : Kept context (c.call (.opened channel kind)) := by
  have hfold : (c.handler.step (.opened channel kind)).2.foldl carryOut
        { c with handler := (c.handler.step (.opened channel kind)).1 } =
      { c with
        handler := (c.handler.step (.opened channel kind)).1
        lines := c.lines.map (fun l => if l.held && l.channel == channel then l.drop else l) ++
          [{ channel, opening := c.trace.length }] } := by
    rw [heffects]
    rfl
  rw [call_eq c _ hfold]
  refine h.called _ ?_ fun l hl => ?_
  · rw [heffects]
    refine (h.placed.map fun l => ?_).add
    split_ifs <;> exact ⟨rfl, rfl⟩
  have hdrop {n : Nat} (hn : n ≤ c.trace.length) :
      (c.events ++ [ConnectionEvent.opened channel kind]).drop n =
        c.events.drop n ++ [ConnectionEvent.opened channel kind] := by
    refine List.drop_append_of_le_length ?_
    rwa [events, List.length_map]
  rw [hidle]
  rcases List.mem_append.mp hl with hold | hnew
  · obtain ⟨l, hmem, rfl⟩ := List.mem_map.mp hold
    have hkept := h.keeps l hmem
    rw [hidle] at hkept
    by_cases hcond : (l.held && l.channel == channel) = true
    · rw [if_pos hcond, show l.drop.opening = l.opening from rfl, hdrop (h.placed.lt hmem)]
      obtain ⟨-, hchannel⟩ := Bool.and_eq_true_iff.mp hcond
      obtain rfl := beq_iff_eq.mp hchannel
      refine hkept.finishes (beq_self_eq_true _) rfl rfl ?_
      rw [released_concat]
      simp
    · rw [if_neg hcond, hdrop (h.placed.lt hmem)]
      refine hkept.ignores fun hheld => ⟨Bool.eq_false_iff.mpr fun hends => hcond ?_, rfl⟩
      rw [hheld, Bool.true_and, beq_iff_eq]
      exact (beq_iff_eq.mp hends).symm
  · rw [List.mem_singleton.mp hnew, List.drop_of_length_le]
    · exact .start channel c.trace.length
    · rw [List.length_append, events, List.length_map]
      rfl

/-- The handler is called for anything. -/
theorem call (h : Kept context c) (event : ConnectionEvent) (hidle : c.doing = .idle) :
    Kept context (c.call event) := by
  rcases effects_cases h.tracks event with ⟨channel, kind, name, user, rfl, -, heffects⟩ |
    ⟨channel, input, -, hpassed, heffects⟩ | ⟨hquiet, hopened, hpassed⟩
  · exact h.callRelay heffects hidle
  · cases event with
    | data =>
      cases hpassed
      exact h.callData heffects hidle
    | eof =>
      cases hpassed
      exact h.callEof heffects hidle
    | closed =>
      cases hpassed
      exact h.callClosed heffects hidle
    | request =>
      cases hpassed
      exact h.callRequest heffects hidle
    | opened | display | agent => cases hpassed
  · exact h.callQuietly hquiet hopened hpassed

/-! ### Every step -/

/-- The handler goes on where it waited. -/
theorem resume? (h : Kept context c) (hresume : c.resume? = some c') : Kept context c' := by
  unfold Connection.resume? at hresume
  split at hresume
  · next channel chunk hdoing =>
    obtain ⟨found, -, hroom⟩ := Option.bind_eq_some_iff.mp hresume
    split_ifs at hroom
    cases hroom
    obtain ⟨f, doing, hoffer, hothers, hheld⟩ := offer_cases c channel chunk
      fun l hl l' hl' => h.held_unique hl hl'
    rw [hoffer]
    refine h.worked _ doing c.told (fun l => ?_) fun l hl hkept => ?_
    · split_ifs <;> exact ⟨rfl, rfl⟩
    · rw [hdoing] at hkept
      by_cases hcond : (l.held && l.channel == channel) = true
      · obtain ⟨hl', hchannel⟩ := Bool.and_eq_true_iff.mp hcond
        obtain ⟨rest, hrest, hwaiting⟩ := hheld l hl hl' (beq_iff_eq.mp hchannel)
        rw [HandlerCall.waitingFor, if_pos hcond] at hkept
        have hoffered := hkept.offersAgain hrest
        rw [← hwaiting] at hoffered
        rw [if_pos hcond]
        exact hoffered
      · rw [HandlerCall.waitingFor, if_neg hcond] at hkept
        rw [if_neg hcond, hothers l (by simpa using hcond)]
        exact hkept
  · next channel asker request hdoing =>
    obtain ⟨found, -, hroom⟩ := Option.bind_eq_some_iff.mp hresume
    split_ifs at hroom
    cases hroom
    obtain ⟨f, doing, told, hdata, hwaiting, hask⟩ := ask_cases c channel asker request
    rw [hask]
    refine h.worked _ doing told (fun l => ?_) fun l hl hkept => ?_
    · split_ifs <;> exact ⟨rfl, rfl⟩
    · rw [hdoing] at hkept
      rw [hwaiting]
      split_ifs
      · exact hkept.of_data (hdata _)
      · exact hkept
  all_goals cases hresume

/-- Each step of a connection keeps it in order. -/
theorem step (h : Kept context c) {action : ConnectionAction} (hstep : c.step? action = some c') :
    Kept context c' := by
  cases action with
  | call event =>
    simp only [step?] at hstep
    split at hstep
    · next hidle =>
      cases hstep
      exact h.call event hidle
    · cases hstep
  | resume => exact h.resume? hstep
  | takeData opening =>
    cases hstep
    refine h.withLine opening (fun l => ?_) Line.Keeps.takes
    unfold Line.takeData
    split <;> exact ⟨rfl, rfl, rfl⟩
  | leaveData opening =>
    cases hstep
    exact h.withLine opening (fun _ => ⟨rfl, rfl, rfl⟩) Line.Keeps.leaves
  | takeRequest opening =>
    cases hstep
    exact h.withRequests opening takeRequest_data
  | reply opening accepted =>
    cases hstep
    exact h.withRequests opening fun _ => rfl
  | leaveRequests opening =>
    cases hstep
    exact h.withRequests opening fun _ => rfl

/-- So does each run. -/
theorem run (h : Kept context c) {actions : List ConnectionAction} (hrun : c.run? actions = some c') :
    Kept context c' := by
  induction actions generalizing c with
  | nil =>
    cases hrun
    exact h
  | cons action actions ih =>
    obtain ⟨c₁, hstep, hrest⟩ := Option.bind_eq_some_iff.mp hrun
    exact ih (h.step hstep) hrest

end Kept

/-! ### What users see of it -/

/-- The channel has been opened without being refused, and not been closed since. -/
def Serves (channel : ChannelId) (past : List (ConnectionEvent × List HandlerEffect)) : Prop :=
  Since
    (fun entry => (∃ kind, entry.1 = .opened channel kind) ∧
      .decline channel ∉ entry.2 ∧ ∀ reason, .refuse channel reason ∉ entry.2)
    (fun entry => entry.1 = .closed channel) past

/-- The bastion has given its own answer on the channel, whose number has not been given to another
since. -/
def Answered (context : Context) (channel : ChannelId)
    (past : List (ConnectionEvent × List HandlerEffect)) : Prop :=
  Since (fun entry => entry.2 = localAnswer context channel)
    (fun entry => ∃ kind, entry.1 = .opened channel kind) past

section

variable {channel : ChannelId}
  (hall : Throughout (fun before entry => Answers context (before.map Prod.fst) entry.1 entry.2) past)

include hall

theorem serves_of_relayed (h : Relayed context channel (past.map Prod.fst)) : Serves channel past := by
  refine h.2.of_map.imp hall (fun before entry hanswer hopened => ⟨hopened, ?_⟩) fun _ => id
  obtain ⟨kind, hopened⟩ := hopened
  rw [hopened] at hanswer
  exact hanswer.opens (.inl h.1)

theorem serves_of_local (h : Local context channel (past.map Prod.fst)) : Serves channel past := by
  refine h.2.of_map.imp hall (fun before entry hanswer hopened => ⟨⟨_, hopened⟩, ?_⟩) fun _ => .inl
  rw [hopened] at hanswer
  exact hanswer.opens (.inr ⟨h.1, rfl⟩)

/-- After its own answer the channel is not the bastion's any more. -/
theorem not_local_of_answered (h : Answered context channel past) :
    ¬ ForHost context ∧ ¬ Local context channel (past.map Prod.fst) := by
  obtain ⟨earlier, entry, later, rfl, hreply, hlater⟩ := h
  obtain ⟨request, hevent, hstarts, hlocal⟩ :=
    (hall earlier entry later rfl).eq_localAnswer_iff.mp hreply
  refine ⟨hlocal.1, fun hnow => ?_⟩
  have hsince := hnow.2
  rw [List.map_append, List.map_cons, hevent] at hsince
  obtain ⟨e, hmem, hopened⟩ := hsince.started_again nofun (.inr ⟨request, hstarts, rfl⟩)
  obtain ⟨again, hagain, rfl⟩ := List.mem_map.mp hmem
  exact hlater again hagain ⟨_, hopened⟩

end

/-- Whatever the user sends, and however the relays keep up with it: no channel is both relayed and the
bastion's own, and everything that happens is answered as `Answers` says. Each relay is for one opening of a
channel on a connection to a host, and has the only queues there are for it. It gets the data of its channel
up to the end, in order, and none but what it does not read is missing. A connection that is not for a host
declines whatever is not a session. The bastion's own answer is that to the first request for a program on a
channel of its own; after it, as on a channel that has been refused, closed or never opened, every request
fails. -/
theorem channels_are_kept_apart {actions : List ConnectionAction} (h : (start context).run? actions = some c) :
    (∀ channel ∈ c.handler.relayed, channel ∉ c.handler.locals) ∧
      Placed c.trace c.lines ∧
      (∀ l ∈ c.lines,
        let sent := sentOn l.channel (c.events.drop (l.opening + 1))
        l.taken ++ l.feed.data.items <+: sent ∧
          (l.feed.data.read = true → l.taken ++ l.feed.data.items ++ c.doing.waitingFor l = sent)) ∧
      ∀ before event effects after, c.trace = before ++ (event, effects) :: after →
        Answers context (before.map Prod.fst) event effects ∧
        (∀ channel user name kind, .relay channel user name kind ∈ effects →
          event = .opened channel kind ∧ effects = [.accept channel, .relay channel user name kind] ∧
            context.intent = .host name) ∧
        (∀ channel kind, event = .opened channel kind → ¬ ForHost context → kind ≠ .session →
          effects = [.decline channel]) ∧
        (∀ channel, effects = localAnswer context channel ↔ ∃ request, event = .request channel request ∧
          StartsProgram request ∧ Local context channel (before.map Prod.fst)) ∧
        ∀ channel request, event = .request channel request →
          Answered context channel before ∨ ¬ Serves channel before →
          effects = [.send channel (.reply false)] := by
  have hkept : Kept context c := (Kept.start context).run h
  refine ⟨fun channel hrelayed hlocal => ?_, hkept.placed,
    fun l hl => ⟨(hkept.keeps l hl).part, (hkept.keeps l hl).whole⟩,
    fun before event effects after htrace => ?_⟩
  · have hrel := (hkept.tracks.relayed channel).mp hrelayed
    exact ((hkept.tracks.locals channel).mp hlocal).1 (forHost_of_relayable hrel.1)
  have hanswer : Answers context (before.map Prod.fst) event effects := hkept.answers before _ after htrace
  refine ⟨hanswer, fun channel user name kind hmem => ?_, ?_, fun channel => hanswer.eq_localAnswer_iff, ?_⟩
  · obtain ⟨hevent, heffects, hrel⟩ := hanswer.relay hmem
    exact ⟨hevent, heffects, hrel.forHost⟩
  · rintro channel kind rfl hhost hkind
    exact hanswer.declined hhost hkind
  · rintro channel request rfl hdone
    have hbefore : Throughout _ before := (htrace ▸ hkept.answers).of_append
    rcases hdone with hanswered | hnot
    · obtain ⟨hhost, hlocal⟩ := not_local_of_answered hbefore hanswered
      exact hanswer.failed (fun hrel => hhost (forHost_of_relayable hrel.1)) hlocal
    · exact hanswer.failed (fun hrel => hnot (serves_of_relayed hbefore hrel))
        fun hlocal => hnot (serves_of_local hbefore hlocal)

/-- Two channels to a host are used by turns. The data of the first ends, and what comes after that is lost;
the second is closed before anything is read. -/
theorem two_channels_are_read_apart :
    let context : Context := { user := some { id := 1, name := "bob", email := "bob@x" }, intent := .host "db" }
    let actions : List ConnectionAction := [
      .call (.opened 0 .session), .call (.opened 1 (.forward "localhost" 5432 "127.0.0.1" 40000)),
      .call (.data 0 { data := [1] }), .call (.data 1 { data := [2] }), .takeData 0,
      .call (.data 0 { data := [3], ext := some 1 }), .call (.eof 0), .call (.data 0 { data := [4] }),
      .call (.closed 1)]
    ∃ c, (start context).run? actions = some c ∧
      (∀ channel ∈ c.handler.relayed, channel ∉ c.handler.locals) ∧
      c.lines.map (fun l => (l.channel, l.taken, l.feed.data.items)) =
        [(0, [{ data := [1] }], [{ data := [3], ext := some 1 }]), (1, [], [{ data := [2] }])] ∧
      ∀ l ∈ c.lines, l.taken ++ l.feed.data.items <+: sentOn l.channel (c.events.drop (l.opening + 1)) := by
  intro context actions
  obtain ⟨c, hrun⟩ : ∃ c, (start context).run? actions = some c :=
    Option.isSome_iff_exists.mp (by decide +kernel)
  have hlines : c.lines.map (fun l => (l.channel, l.taken, l.feed.data.items)) =
      [(0, [{ data := [1] }], [{ data := [3], ext := some 1 }]), (1, [], [{ data := [2] }])] := by
    have hmap : ((start context).run? actions).map
        (fun c => c.lines.map fun l => (l.channel, l.taken, l.feed.data.items)) =
      some [(0, [{ data := [1] }], [{ data := [3], ext := some 1 }]), (1, [], [{ data := [2] }])] := by
      decide +kernel
    rw [hrun] at hmap
    exact Option.some.inj hmap
  obtain ⟨hapart, -, hdata, -⟩ := channels_are_kept_apart hrun
  exact ⟨c, hrun, hapart, hlines, fun l hl => (hdata l hl).1⟩

end Connection

end Gatehouse.Bastion
