import Gatehouse.Proofs.Relay.Closing
import Gatehouse.Relay.Owner
import Gatehouse.Relay.User

/-!
# The way of an exit status

On its way from the host to the user an exit status waits in two places, before the pipe and after it.

* `Gathered`: the exits among the messages that the owner has read are those that the pipe has taken,
  those in the queue and the held one, in this order; so when the pipe takes the end of the requests,
  it has taken all exits, and the host's close is the last message that the owner has read.
* `Told`: the exits that the pipe has sent are those that the user has been told and those that wait in
  the outbox, and a close in either place comes after all of them.

Each is kept by what happens on its side, one lemma for each thing that can happen.
-/

namespace Gatehouse.Relay

/-! ### Exits -/

/-- The exit status or exit signal that a host sends. -/
def HostMessage.exit? : HostMessage → Option Request
  | .exitStatus status => some (.exitStatus status)
  | .exitSignal name coreDumped message language =>
    some (.exitSignal name coreDumped message language)
  | _ => none

/-- The exit status or exit signal that a user is told. -/
def UserMessage.exit? : UserMessage → Option Request
  | .exitStatus status => some (.exitStatus status)
  | .exitSignal name coreDumped message language =>
    some (.exitSignal name coreDumped message language)
  | _ => none

/-- The exits among what a host sends. -/
def exitsSent (messages : List HostMessage) : List Request :=
  messages.filterMap HostMessage.exit?

/-- The exits among what a user is told. -/
def exitsTold (messages : List UserMessage) : List Request :=
  messages.filterMap UserMessage.exit?

/-- The exits that a pipe has sent to the user. -/
def exitsPassed (trace : List PipeAction) : List Request :=
  ((sendings .outbound trace).map Incoming.request).filter fun request => !request.isForServer

theorem exitsSent_snoc (messages : List HostMessage) (message : HostMessage) :
    exitsSent (messages ++ [message]) = exitsSent messages ++ message.exit?.toList :=
  Pipe.filterMap_snoc _ _ _

theorem exitsTold_append (before after : List UserMessage) :
    exitsTold (before ++ after) = exitsTold before ++ exitsTold after :=
  List.filterMap_append

/-- Only a program's end is not for a server. -/
theorem isForServer_of_exit {message : HostMessage} {request : Request}
    (h : message.exit? = some request) : request.isForServer = false := by
  cases message with
  | exitStatus | exitSignal =>
    cases h
    rfl
  | _ => cases h

theorem filter_exits (messages : List HostMessage) :
    ((exitsSent messages).map (Incoming.request ∘ .ofRequest)).filter
      (fun request => !request.isForServer) = exitsSent messages := by
  have hid : Incoming.request ∘ Incoming.ofRequest = id := rfl
  rw [hid, List.map_id, List.filter_eq_self]
  intro request hmem
  obtain ⟨message, -, hexit⟩ := List.mem_filterMap.mp hmem
  rw [isForServer_of_exit hexit]
  rfl

namespace Pipe

variable {p p' : Pipe} {trace : List PipeAction} {action : PipeAction}

/-! ### What the trace of a pipe says -/

/-- The end of the requests from a side has been taken. -/
def Ended (source : Side) (trace : List PipeAction) : Prop :=
  none ∈ takings source trace

theorem takings_snoc (source : Side) (trace : List PipeAction) (action : PipeAction) :
    takings source (trace ++ [action]) = takings source trace ++ (action.taking? source).toList :=
  filterMap_snoc _ _ _

theorem sendings_snoc (source : Side) (trace : List PipeAction) (action : PipeAction) :
    sendings source (trace ++ [action]) = sendings source trace ++ (action.sending? source).toList :=
  filterMap_snoc _ _ _

theorem Ended.snoc {source : Side} (h : Ended source trace) (action : PipeAction) :
    Ended source (trace ++ [action]) := by
  unfold Ended
  rw [takings_snoc]
  exact List.mem_append_left _ h

theorem ended_snoc_iff {source : Side} (h : action.taking? source = none) :
    Ended source (trace ++ [action]) ↔ Ended source trace := by
  unfold Ended
  rw [takings_snoc, h, Option.toList_none, List.append_nil]

theorem ended_of_eq {source : Side} {sent : List Incoming}
    (h : takings source trace = sent.map some ++ [none]) : Ended source trace := by
  unfold Ended
  rw [h]
  exact List.mem_append_right _ List.mem_cons_self

theorem not_ended_of_eq {source : Side} {sent : List Incoming}
    (h : takings source trace = sent.map some) : ¬ Ended source trace := by
  intro hend
  unfold Ended at hend
  rw [h] at hend
  obtain ⟨request, -, hno⟩ := List.mem_map.mp hend
  cases hno

theorem Sound.ended_of_gone (h : Sound p trace) {source : Side}
    (hgone : p.isGone (.requests source) = true) : Ended source trace := by
  have hforwarded := h.forwarded source
  rw [isGone_requests.mp hgone] at hforwarded
  exact ended_of_eq hforwarded

theorem Sound.ended_of_report (h : Sound p trace) {source : Side} {result : Except RelayError Unit}
    (hreport : p.report? (.requests source) = some result) : Ended source trace := by
  have hforwarded := h.forwarded source
  rw [report?_requests hreport] at hforwarded
  exact ended_of_eq hforwarded.2

theorem Sound.not_ended_of_waiting (h : Sound p trace) {source : Side}
    (hstate : p.forwarding source = .waiting) : ¬ Ended source trace := by
  have hforwarded := h.forwarded source
  rw [hstate] at hforwarded
  exact not_ended_of_eq hforwarded

theorem Sound.not_ended_of_sending (h : Sound p trace) {source : Side} {request : Incoming}
    (hstate : p.forwarding source = .sending request) : ¬ Ended source trace := by
  have hforwarded := h.forwarded source
  rw [hstate] at hforwarded
  have htaken : takings source trace = (sendings source trace ++ [request]).map some := by
    rw [List.map_append]
    exact hforwarded
  exact not_ended_of_eq htaken

/-- Once the end of the requests is taken, all requests have been sent. -/
theorem Sound.takings_of_ended (h : Sound p trace) {source : Side} (hend : Ended source trace) :
    takings source trace = (sendings source trace).map some ++ [none] := by
  have hforwarded := h.forwarded source
  cases hstate : p.forwarding source with
  | waiting | replying =>
    rw [hstate] at hforwarded
    exact absurd hend (not_ended_of_eq hforwarded)
  | sending request => exact absurd hend (h.not_ended_of_sending hstate)
  | recording request =>
    rw [hstate] at hforwarded
    have htaken : takings source trace = (sendings source trace ++ [request]).map some := by
      rw [List.map_append]
      exact hforwarded
    exact absurd hend (not_ended_of_eq htaken)
  | reporting =>
    rw [hstate] at hforwarded
    exact hforwarded.2
  | gone =>
    rw [hstate] at hforwarded
    exact hforwarded

/-- A task that fails has an error to report. -/
theorem fails_of_step (hstep : Step p action p')
    (hreports : ∀ task e, p'.report? task ≠ some (.error e))
    (hdies : ∀ task, action ≠ .dies task) : action.fails = false := by
  have hdata : ∀ source e, action.fails = true →
      p' ≠ p.setCopying source (.reporting (.error e)) := by
    rintro source e - rfl
    refine hreports (.data source) e ?_
    simp only [report?, setCopying, if_pos]
  have hrequests : ∀ source e, action.fails = true →
      p' ≠ p.setForwarding source (.reporting (.error e)) := by
    rintro source e - rfl
    refine hreports (.requests source) e ?_
    simp only [report?, setForwarding, if_pos]
  cases hstep with
  | readError | writeError => exact absurd rfl (hdata _ _ rfl)
  | sendError | replyError => exact absurd rfl (hrequests _ _ rfl)
  | @halfClosed source result =>
    rcases result with e | ⟨⟩
    · exact absurd rfl (hdata _ _ rfl)
    · rfl
  | @dies task => exact absurd rfl (hdies task)
  | _ => rfl

end Pipe

/-! ### The host's side -/

/-- Where what a host has sent is on its way to the pipe. -/
structure Gathering where
  requests : Queue Incoming
  held : Option Delivery
  remoteClosed : Bool
  inbox : List HostMessage
  fromHost : List HostMessage

/-- The requests that a held message is. -/
def heldRequests : Option Delivery → List Incoming
  | some (.request request) => [request]
  | _ => []

theorem heldRequests_none : heldRequests none = [] := rfl

/-- What the owner has read of the host is, as far as exits go, with the pipe, in the queue or held. -/
structure Gathered (trace : List PipeAction) (g : Gathering) (seen : List HostMessage) : Prop where
  read : g.fromHost = seen ++ g.inbox
  unclosed : g.remoteClosed = false → HostMessage.close ∉ seen
  closed : g.remoteClosed = true → ∃ sent, seen = sent ++ [.close] ∧ HostMessage.close ∉ sent
  shut : g.remoteClosed = true → g.requests.fed = false ∧ g.held = none
  fed : g.remoteClosed = false → ¬ Pipe.Ended .outbound trace → g.requests.fed = true
  kept : ¬ Pipe.Ended .outbound trace → g.requests.read = true ∧
    takings .outbound trace ++ (g.requests.items ++ heldRequests g.held).map some =
      (exitsSent seen).map (some ∘ .ofRequest)
  ended : Pipe.Ended .outbound trace → g.remoteClosed = true ∧
    takings .outbound trace = (exitsSent seen).map (some ∘ .ofRequest) ++ [none]

namespace Gathered

variable {trace : List PipeAction} {g : Gathering} {seen : List HostMessage} {action : PipeAction}

/-- Other steps of the pipe. -/
theorem snoc (h : Gathered trace g seen) (htaking : action.taking? .outbound = none) :
    Gathered (trace ++ [action]) g seen := by
  have hended : Pipe.Ended .outbound (trace ++ [action]) ↔ Pipe.Ended .outbound trace :=
    Pipe.ended_snoc_iff htaking
  have htakings : takings .outbound (trace ++ [action]) = takings .outbound trace := by
    rw [Pipe.takings_snoc, htaking, Option.toList_none, List.append_nil]
  refine ⟨h.read, h.unclosed, h.closed, h.shut, fun hopen hnot => ?_, fun hnot => ?_, fun hend => ?_⟩
  · exact h.fed hopen (mt hended.mpr hnot)
  · rw [htakings]
    exact h.kept (mt hended.mpr hnot)
  · rw [htakings]
    exact h.ended (hended.mp hend)

/-- The pipe takes a request. -/
theorem took (h : Gathered trace g seen) (hnot : ¬ Pipe.Ended .outbound trace)
    {requests : Queue Incoming} {incoming : Incoming}
    (htake : g.requests.take = (requests, .item incoming)) :
    Gathered (trace ++ [.took .outbound (some incoming)]) { g with requests } seen := by
  obtain ⟨hread, hkept⟩ := h.kept hnot
  have htakings : takings .outbound (trace ++ [.took .outbound (some incoming)]) =
      takings .outbound trace ++ [some incoming] := Pipe.takings_snoc _ _ _
  have hnot' : ¬ Pipe.Ended .outbound (trace ++ [.took .outbound (some incoming)]) := by
    unfold Pipe.Ended at hnot ⊢
    rw [htakings]
    simpa using hnot
  unfold Queue.take at htake
  split at htake
  · next first rest hitems =>
    cases htake
    refine ⟨h.read, h.unclosed, h.closed, h.shut, fun hopen _ => h.fed hopen hnot,
      fun _ => ⟨hread, ?_⟩, fun hend => absurd hend hnot'⟩
    rw [hitems] at hkept
    rw [htakings, ← hkept, List.append_assoc]
    rfl
  · split_ifs at htake <;> cases htake

/-- The pipe takes the end of the requests: the host has closed the channel, and nothing is left. -/
theorem tookEnd (h : Gathered trace g seen) (hnot : ¬ Pipe.Ended .outbound trace)
    {requests : Queue Incoming} (htake : g.requests.take = (requests, .ended)) :
    Gathered (trace ++ [.took .outbound none]) { g with requests } seen := by
  obtain ⟨hread, hkept⟩ := h.kept hnot
  have htakings : takings .outbound (trace ++ [.took .outbound none]) =
      takings .outbound trace ++ [none] := Pipe.takings_snoc _ _ _
  have hend : Pipe.Ended .outbound (trace ++ [.took .outbound none]) := by
    unfold Pipe.Ended
    rw [htakings]
    exact List.mem_append_right _ List.mem_cons_self
  unfold Queue.take at htake
  split at htake
  · cases htake
  · next hitems =>
    obtain ⟨rfl, hended⟩ := Prod.mk.inj htake
    -- The reader is still there, so an empty queue is at its end only if the owner has left it.
    have hunfed : g.requests.fed = false := by
      split_ifs at hended with hfed
      rw [hread, Bool.and_true] at hfed
      exact Bool.eq_false_iff.mpr hfed
    have hclosed : g.remoteClosed = true := by
      by_contra hopen
      rw [h.fed (Bool.eq_false_iff.mpr hopen) hnot] at hunfed
      cases hunfed
    refine ⟨h.read, h.unclosed, h.closed, h.shut, fun _ hno => absurd hend hno,
      fun hno => absurd hend hno, fun _ => ⟨hclosed, ?_⟩⟩
    rw [hitems, (h.shut hclosed).2] at hkept
    rw [htakings, ← hkept]
    simp [heldRequests]

/-- The reader of the queue leaves. -/
theorem abandon (h : Gathered trace g seen) (hend : Pipe.Ended .outbound trace) :
    Gathered trace { g with requests := g.requests.abandon } seen :=
  ⟨h.read, h.unclosed, h.closed, h.shut, fun _ hnot => absurd hend hnot,
    fun hnot => absurd hend hnot, h.ended⟩

/-- The owner leaves. -/
theorem finish (h : Gathered trace g seen) (hend : Pipe.Ended .outbound trace) :
    Gathered trace { g with requests := g.requests.finish, held := none } seen :=
  ⟨h.read, h.unclosed, h.closed, fun _ => ⟨rfl, rfl⟩, fun _ hnot => absurd hend hnot,
    fun hnot => absurd hend hnot, h.ended⟩

/-- The host sends something. -/
theorem host (h : Gathered trace g seen) (message : HostMessage) :
    Gathered trace { g with inbox := g.inbox ++ [message], fromHost := g.fromHost ++ [message] }
      seen := by
  refine ⟨?_, h.unclosed, h.closed, h.shut, h.fed, h.kept, h.ended⟩
  change g.fromHost ++ [message] = seen ++ (g.inbox ++ [message])
  rw [h.read, List.append_assoc]

/-- As long as the host has not closed the channel, its requests find their way to the pipe. -/
theorem ends_of_open (h : Gathered trace g seen) (hopen : g.remoteClosed = false) :
    ¬ Pipe.Ended .outbound trace ∧ g.requests.fed = true ∧ g.requests.read = true := by
  have hnot : ¬ Pipe.Ended .outbound trace := by
    intro hend
    rw [(h.ended hend).1] at hopen
    cases hopen
  exact ⟨hnot, h.fed hopen hnot, (h.kept hnot).1⟩

/-- The owner reads something, which is put into a queue or held. -/
theorem reads (h : Gathered trace g seen) (hopen : g.remoteClosed = false) (hfree : g.held = none)
    {message : HostMessage} {inbox : List HostMessage} (hinbox : g.inbox = message :: inbox)
    (hclose : message ≠ .close) {requests : Queue Incoming} {held : Option Delivery}
    (hends : requests.fed = true ∧ requests.read = true)
    (hitems : requests.items ++ heldRequests held =
      g.requests.items ++ message.exit?.toList.map .ofRequest) :
    Gathered trace { g with inbox, requests, held } (seen ++ [message]) := by
  obtain ⟨hnot, -, -⟩ := h.ends_of_open hopen
  refine ⟨?_, fun _ hmem => ?_, fun hclosed => ?_, fun hclosed => ?_, fun _ _ => hends.1,
    fun _ => ⟨hends.2, ?_⟩, fun hend => absurd hend hnot⟩
  · rw [h.read, hinbox, List.append_assoc]
    rfl
  · rcases List.mem_append.mp hmem with hmem | hmem
    · exact h.unclosed hopen hmem
    · exact hclose (List.mem_singleton.mp hmem).symm
  · rw [hopen] at hclosed
    cases hclosed
  · rw [hopen] at hclosed
    cases hclosed
  · have hkept := (h.kept hnot).2
    rw [hfree, heldRequests_none, List.append_nil] at hkept
    change takings .outbound trace ++ (requests.items ++ heldRequests held).map some = _
    rw [hitems, exitsSent_snoc, List.map_append, List.map_append, ← List.append_assoc, hkept,
      List.map_map]

/-- The owner reads the close. -/
theorem readsClose (h : Gathered trace g seen) (hopen : g.remoteClosed = false)
    (hfree : g.held = none) {inbox : List HostMessage} (hinbox : g.inbox = .close :: inbox) :
    Gathered trace
      { g with inbox, remoteClosed := true, requests := g.requests.finish, held := none }
      (seen ++ [.close]) := by
  obtain ⟨hnot, -, hread⟩ := h.ends_of_open hopen
  refine ⟨?_, fun hno => (by cases hno), fun _ => ⟨seen, rfl, h.unclosed hopen⟩,
    fun _ => ⟨rfl, rfl⟩, fun hno => (by cases hno), fun _ => ⟨hread, ?_⟩,
    fun hend => absurd hend hnot⟩
  · rw [h.read, hinbox, List.append_assoc]
    rfl
  · have hkept := (h.kept hnot).2
    rw [hfree] at hkept
    rw [exitsSent_snoc]
    exact hkept.trans (congrArg _ (List.append_nil _).symm)

/-- The owner tries again to put the held message into its queue. -/
theorem release (h : Gathered trace g seen) (hheld : g.held.isSome = true)
    {requests : Queue Incoming} {held : Option Delivery}
    (hput : g.requests.fed = true → g.requests.read = true →
      requests.fed = true ∧ requests.read = true ∧
        requests.items ++ heldRequests held = g.requests.items ++ heldRequests g.held) :
    Gathered trace { g with requests, held } seen := by
  have hopen : g.remoteClosed = false := by
    rw [← Bool.not_eq_true]
    intro hclosed
    rw [(h.shut hclosed).2] at hheld
    cases hheld
  obtain ⟨hnot, hfed, hread⟩ := h.ends_of_open hopen
  obtain ⟨hfed', hread', hitems⟩ := hput hfed hread
  refine ⟨h.read, h.unclosed, h.closed, fun hclosed => ?_, fun _ _ => hfed',
    fun _ => ⟨hread', ?_⟩, fun hend => absurd hend hnot⟩
  · rw [hopen] at hclosed
    cases hclosed
  · change takings .outbound trace ++ (requests.items ++ heldRequests held).map some = _
    rw [hitems]
    exact (h.kept hnot).2

end Gathered

/-! ### The user's side -/

/-- Where what a user is told is on its way from the pipe. -/
structure Telling where
  outbox : List UserMessage
  toUser : List UserMessage
  link : UserLink

/-- What the user has been told and will be told is, as far as exits go, what the pipe has sent, and
all of it comes before the close. -/
structure Told (trace : List PipeAction) (t : Telling) : Prop where
  running : t.link = .running →
    exitsTold (t.toUser ++ t.outbox) = exitsPassed trace ∧ UserMessage.close ∉ t.toUser
  posted : ∀ before after, t.outbox = before ++ .close :: after →
    Pipe.Ended .outbound trace ∧ exitsTold after = []
  told : ∀ before after, t.toUser = before ++ .close :: after →
    Pipe.Ended .outbound trace ∧ exitsTold before = exitsPassed trace

namespace Told

variable {trace : List PipeAction} {t : Telling} {action : PipeAction}

theorem of_passed (h : Told trace t) (hpassed : exitsPassed (trace ++ [action]) = exitsPassed trace) :
    Told (trace ++ [action]) t := by
  refine ⟨?_, fun before after heq => ?_, fun before after heq => ?_⟩
  · rw [hpassed]
    exact h.running
  · exact ⟨(h.posted before after heq).1.snoc action, (h.posted before after heq).2⟩
  · rw [hpassed]
    exact ⟨(h.told before after heq).1.snoc action, (h.told before after heq).2⟩

/-- Other steps of the pipe. -/
theorem snoc (h : Told trace t) (hsending : action.sending? .outbound = none) :
    Told (trace ++ [action]) t := by
  refine h.of_passed ?_
  rw [exitsPassed, Pipe.sendings_snoc, hsending, Option.toList_none, List.append_nil]
  rfl

/-- The message `x` stands at the end of the longer list, or it stood in the shorter one. -/
theorem split_snoc {messages before after : List UserMessage} {m x : UserMessage}
    (h : messages ++ [m] = before ++ x :: after) :
    (m = x ∧ messages = before ∧ after = []) ∨
      ∃ after', after = after' ++ [m] ∧ messages = before ++ x :: after' := by
  rcases List.eq_nil_or_concat after with rfl | ⟨after', last, rfl⟩
  · obtain ⟨hmessages, hlast⟩ := List.append_inj' h rfl
    cases hlast
    exact .inl ⟨rfl, hmessages, rfl⟩
  · have hconcat : messages ++ [m] = (before ++ x :: after') ++ [last] := by
      rw [h, List.append_assoc, List.concat_eq_append]
      rfl
    obtain ⟨hmessages, hlast⟩ := List.append_inj' hconcat rfl
    cases hlast
    exact .inr ⟨after', List.concat_eq_append, hmessages⟩

/-- Something that is neither an exit nor the close is put into the outbox. -/
theorem post (h : Told trace t) {message : UserMessage} (hexit : message.exit? = none)
    (hclose : message ≠ .close) : Told trace { t with outbox := t.outbox ++ [message] } := by
  have hnone : exitsTold [message] = [] := List.filterMap_cons_none hexit
  refine ⟨fun hlink => ?_, fun before after heq => ?_, h.told⟩
  · obtain ⟨htold, hopen⟩ := h.running hlink
    refine ⟨?_, hopen⟩
    rw [← List.append_assoc, exitsTold_append, hnone, List.append_nil]
    exact htold
  · rcases split_snoc heq with ⟨rfl, -, -⟩ | ⟨after', rfl, houtbox⟩
    · exact absurd rfl hclose
    · obtain ⟨hend, hafter⟩ := h.posted before after' houtbox
      refine ⟨hend, ?_⟩
      rw [exitsTold_append, hnone, List.append_nil]
      exact hafter

theorem exitsPassed_sent (trace : List PipeAction) (incoming : Incoming) (accepted : Bool) :
    exitsPassed (trace ++ [.sent .outbound incoming (.ok accepted)]) =
      exitsPassed trace ++ [incoming.request].filter fun request => !request.isForServer := by
  rw [exitsPassed, Pipe.sendings_snoc, List.map_append, List.filter_append]
  rfl

/-- The pipe sends an exit, which is put into the outbox. -/
theorem postExit (h : Told trace t) (hnot : ¬ Pipe.Ended .outbound trace) {message : UserMessage}
    {incoming : Incoming} (hexit : message.exit? = some incoming.request)
    (hserver : incoming.request.isForServer = false) (accepted : Bool) :
    Told (trace ++ [.sent .outbound incoming (.ok accepted)])
      { t with outbox := t.outbox ++ [message] } := by
  have hone : exitsTold [message] = [incoming.request] := List.filterMap_cons_some hexit
  refine ⟨fun hlink => ?_, fun before after heq => ?_, fun before after heq => ?_⟩
  · obtain ⟨htold, hopen⟩ := h.running hlink
    refine ⟨?_, hopen⟩
    rw [← List.append_assoc, exitsTold_append, hone, exitsPassed_sent,
      List.filter_cons_of_pos (by rw [hserver]; rfl)]
    exact congrArg (· ++ _) htold
  · rcases split_snoc heq with ⟨rfl, -, -⟩ | ⟨after', rfl, houtbox⟩
    · cases hexit
    · exact absurd (h.posted before after' houtbox).1 hnot
  · exact absurd (h.told before after heq).1 hnot

/-- The pipe sends a request that a user cannot be told. -/
theorem sendOther (h : Told trace t) {incoming : Incoming}
    (hserver : incoming.request.isForServer = true) (accepted : Bool) :
    Told (trace ++ [.sent .outbound incoming (.ok accepted)]) t := by
  refine h.of_passed ?_
  rw [exitsPassed_sent, List.filter_cons_of_neg (by rw [hserver]; decide)]
  exact List.append_nil _

/-- The close is put into the outbox, after all exits. -/
theorem postClose (h : Told trace t) (hend : Pipe.Ended .outbound trace) :
    Told trace { t with outbox := t.outbox ++ [.close] } := by
  refine ⟨fun hlink => ?_, fun before after heq => ⟨hend, ?_⟩, h.told⟩
  · obtain ⟨htold, hopen⟩ := h.running hlink
    refine ⟨?_, hopen⟩
    rw [← List.append_assoc, exitsTold_append]
    exact (List.append_nil _).trans htold
  · rcases split_snoc heq with ⟨-, -, rfl⟩ | ⟨after', rfl, houtbox⟩
    · rfl
    · rw [exitsTold_append, (h.posted before after' houtbox).2]
      rfl

/-- The user is told that a request was accepted or refused. -/
theorem reply (h : Told trace t) (hlink : t.link = .running) (accepted : Bool) :
    Told trace { t with toUser := t.toUser ++ [.reply accepted] } := by
  obtain ⟨htold, hopen⟩ := h.running hlink
  have hopen' : UserMessage.close ∉ t.toUser ++ [.reply accepted] := by
    intro hmem
    rcases List.mem_append.mp hmem with hmem | hmem
    · exact hopen hmem
    · cases List.mem_singleton.mp hmem
  refine ⟨fun _ => ⟨?_, hopen'⟩, h.posted, fun before after heq => absurd ?_ hopen'⟩
  · rw [List.append_assoc, exitsTold_append, exitsTold_append]
    rw [exitsTold_append] at htold
    exact htold
  · change t.toUser ++ [.reply accepted] = before ++ .close :: after at heq
    rw [heq]
    exact List.mem_append_right _ List.mem_cons_self

/-- The channel is closed by the user, or the connection is lost. -/
theorem cut (h : Told trace t) {link : UserLink} (hlink : link ≠ .running) :
    Told trace { t with link } :=
  ⟨fun hrunning => absurd hrunning hlink, h.posted, h.told⟩

theorem clear (h : Told trace t) {link : UserLink} (hlink : link ≠ .running) :
    Told trace { t with outbox := [], link } :=
  ⟨fun hrunning => absurd hrunning hlink, fun before after heq => (by cases before <;> cases heq),
    h.told⟩

/-- The connection sends what is oldest in the outbox. -/
theorem deliver (h : Told trace t) {message : UserMessage} {outbox seen : List UserMessage}
    {link : UserLink} {sent : Except RelayError Unit} (houtbox : t.outbox = message :: outbox)
    (hsend : t.link.send message = (link, seen, sent)) :
    Told trace { outbox, link, toUser := t.toUser ++ seen } := by
  have hposted : ∀ before after, outbox = before ++ .close :: after →
      Pipe.Ended .outbound trace ∧ exitsTold after = [] := by
    intro before after heq
    refine h.posted (message :: before) after ?_
    rw [houtbox, heq]
    rfl
  cases hlink : t.link with
  | closed | gone =>
    rw [hlink] at hsend
    cases hsend
    refine ⟨fun hno => (by cases hno), hposted, ?_⟩
    rw [List.append_nil]
    exact h.told
  | running =>
    rw [hlink] at hsend
    obtain ⟨htold, hopen⟩ := h.running hlink
    rw [houtbox] at htold
    by_cases hclose : message = .close
    · subst hclose
      cases hsend
      -- The close was the next in the outbox, so there are no exits behind it.
      obtain ⟨hend, hafter⟩ := h.posted [] outbox houtbox
      refine ⟨fun hno => (by cases hno), hposted, fun before after heq => ⟨hend, ?_⟩⟩
      rcases split_snoc heq with ⟨-, rfl, -⟩ | ⟨after', -, hmem⟩
      · rw [exitsTold_append] at htold
        have hnone : exitsTold (.close :: outbox) = [] := hafter
        rw [hnone, List.append_nil] at htold
        exact htold
      · rw [hmem] at hopen
        exact absurd (List.mem_append_right _ List.mem_cons_self) hopen
    · have hlink' : link = .running := by
        cases hsend
        exact if_neg hclose
      have hseen : exitsTold seen = exitsTold [message] ∧ UserMessage.close ∉ seen := by
        cases hsend
        cases message with
        | close => exact absurd rfl hclose
        | data chunk =>
          unfold UserLink.visible
          dsimp only
          split_ifs
          · exact ⟨rfl, List.not_mem_nil⟩
          · exact ⟨rfl, fun hmem => by cases List.mem_singleton.mp hmem⟩
        | _ => exact ⟨rfl, fun hmem => by cases List.mem_singleton.mp hmem⟩
      have hopen' : UserMessage.close ∉ t.toUser ++ seen := by
        intro hmem
        rcases List.mem_append.mp hmem with hmem | hmem
        · exact hopen hmem
        · exact hseen.2 hmem
      refine ⟨fun _ => ⟨?_, hopen'⟩, hposted, fun before after heq => absurd ?_ hopen'⟩
      · rw [List.append_assoc, exitsTold_append, exitsTold_append, hseen.1, ← exitsTold_append,
          ← exitsTold_append]
        exact htold
      · change t.toUser ++ seen = before ++ .close :: after at heq
        rw [heq]
        exact List.mem_append_right _ List.mem_cons_self

end Told

end Gatehouse.Relay
