import Gatehouse.Relay.Channel
import Mathlib.Data.List.Induction
import Mathlib.Data.List.Nodup

/-!
# The way of a verdict

A request of the user waits in the handler until it is queued, and its forwarding ends in a call to the
owner of the host's channel; the host's answer comes back the same way.

* `Asking.Holds`: what the forwarding task has taken, what is queued and what the handler still has to
  queue are the user's requests, in this order, and nobody who waits has been told anything yet.
* `Line.Holds`: of what was taken, all but the last is done with, and the last is at one of the stages of
  `Line.Stage`. As only one request is under way at a time, the answer that the host gives next is the
  answer to that one.

Each is kept by whatever happens on its part of the way, one lemma for each thing that can happen.
-/

namespace Gatehouse.Relay

/-! ### What is asked -/

/-- The request that a user sends. -/
def UserInput.request? : UserInput → Option Request
  | .request sent => some sent
  | _ => none

/-- The requests among what a user has sent. -/
def requestsAsked (inputs : List UserInput) : List Request :=
  inputs.filterMap UserInput.request?

/-- A request as it is queued: only for one that takes a reply somebody waits. -/
def Asked.of (asker : AskId) (request : Request) : Asked where
  incoming := .ofRequest request
  asker := if request.wantsReply then some asker else none

/-- The requests of a user as they are queued; askers are numbered in order. -/
def asked (requests : List Request) : List Asked :=
  requests.mapIdx Asked.of

/-- What of some requests can be put on the wire to a host. -/
def forHost (items : List Asked) : List Incoming :=
  (items.map Asked.incoming).filter fun incoming => incoming.request.isForServer

/-- How many of some requests take a reply. -/
def turnOf (items : List Asked) : Nat :=
  items.countP fun item => item.incoming.wantReply

theorem asked_snoc (requests : List Request) (request : Request) :
    asked (requests ++ [request]) = asked requests ++ [.of requests.length request] :=
  List.mapIdx_concat

theorem asked_length (requests : List Request) : (asked requests).length = requests.length :=
  List.length_mapIdx

/-- What comes first of the queued requests comes from the requests that were asked first. -/
theorem asked_of_prefix {items : List Asked} {requests : List Request}
    (h : items <+: asked requests) : ∃ front, front <+: requests ∧ items = asked front := by
  obtain ⟨rest, heq⟩ := h
  obtain ⟨front, back, rfl, hfront, -⟩ := List.mapIdx_eq_append_iff.mp heq.symm
  exact ⟨front, List.prefix_append front back, hfront.symm⟩

theorem incoming_asked (requests : List Request) :
    (asked requests).map Asked.incoming = requests.map .ofRequest := by
  induction requests using List.reverseRecOn with
  | nil => rfl
  | append_singleton requests request ih =>
    rw [asked_snoc, List.map_append, List.map_append, ih]
    rfl

theorem forHost_asked (requests : List Request) :
    forHost (asked requests) = (requests.filter Request.isForServer).map .ofRequest := by
  rw [forHost, incoming_asked, List.filter_map]
  rfl

theorem turnOf_asked (requests : List Request) :
    turnOf (asked requests) = requests.countP Request.wantsReply := by
  have hmap : turnOf (asked requests) =
      ((asked requests).map Asked.incoming).countP Incoming.wantReply := by
    rw [List.countP_map]
    rfl
  rw [hmap, incoming_asked, List.countP_map]
  rfl

/-- Requests that take a reply are for a server. -/
theorem isForServer_of_wantsReply {request : Request} (h : request.wantsReply = true) :
    request.isForServer = true := by
  cases request <;> first | rfl | cases h

/-- The item says itself whether its request takes a reply. -/
def Asked.IsPlain (item : Asked) : Prop :=
  item.incoming.wantReply = item.incoming.request.wantsReply

theorem isPlain_of_prefix {items : List Asked} {requests : List Request}
    (h : items <+: asked requests) : ∀ item ∈ items, item.IsPlain := by
  intro item hmem
  obtain ⟨index, hindex, heq⟩ := List.mem_mapIdx.mp (h.subset hmem)
  rw [← heq]
  rfl

/-- Somebody waits only for a request that takes a reply. -/
theorem wantReply_of_asker {items : List Asked} {requests : List Request}
    (h : items <+: asked requests) {item : Asked} (hmem : item ∈ items) {asker : AskId}
    (hasker : item.asker = some asker) : item.incoming.wantReply = true := by
  obtain ⟨index, hindex, rfl⟩ := List.mem_mapIdx.mp (h.subset hmem)
  rw [Asked.of] at hasker
  split_ifs at hasker with hwants
  exact hwants

/-- The last of the requests that came first is the one its asker has asked. -/
theorem request_of_last {before : List Asked} {item : Asked} {requests : List Request}
    (h : before ++ [item] <+: asked requests) :
    ∃ request, requests[before.length]? = some request ∧ item = .of before.length request ∧
      turnOf before = (requests.take before.length).countP Request.wantsReply := by
  obtain ⟨front, ⟨rest, rfl⟩, heq⟩ := asked_of_prefix h
  rcases List.eq_nil_or_concat front with rfl | ⟨first, request, rfl⟩
  · simp [asked] at heq
  · rw [List.concat_eq_append, asked_snoc] at heq
    obtain ⟨rfl, hitem⟩ := List.append_inj' heq rfl
    refine ⟨request, ?_, ?_, ?_⟩
    · rw [asked_length]
      simp
    · rw [asked_length]
      exact List.singleton_injective hitem
    · rw [asked_length, turnOf_asked]
      simp

theorem forHost_snoc (items : List Asked) (item : Asked) :
    forHost (items ++ [item]) =
      forHost items ++ if item.incoming.request.isForServer then [item.incoming] else [] := by
  rw [forHost, List.map_append, List.filter_append]
  refine congrArg _ (List.filter_singleton.trans ?_)
  exact Bool.cond_eq_ite _ _ _

theorem forHost_prefix_append (items : List Asked) (item : Asked) :
    forHost items <+: forHost (items ++ [item]) := by
  rw [forHost_snoc]
  exact List.prefix_append _ _

/-- What can be put on the wire keeps all requests that take a reply. -/
theorem countP_forHost {items : List Asked} (h : ∀ item ∈ items, item.IsPlain) :
    (forHost items).countP Incoming.wantReply = turnOf items := by
  rw [forHost, List.countP_filter, List.countP_map]
  refine List.countP_congr fun item hmem => ?_
  have hplain : item.incoming.wantReply = item.incoming.request.wantsReply := h item hmem
  simp only [Function.comp_apply, Bool.and_eq_true, and_iff_left_iff_imp, hplain]
  exact isForServer_of_wantsReply

/-! ### Answers in turn -/

/-- What bears on which request an answer of the host belongs to. -/
inductive WireEvent where
  /-- A request that takes a reply is put on the wire. -/
  | asked
  /-- An answer of the host is read. -/
  | answered (accepted : Bool)
deriving DecidableEq

/-- The answer that a host gives. -/
def HostMessage.answer? : HostMessage → Option Bool
  | .success => some true
  | .failure => some false
  | _ => none

/-- The answers of a host belong to its requests in order. -/
structure Answers where
  /-- How many requests wait for an answer. -/
  waiting : Nat := 0
  /-- The answers to the others. -/
  given : List Bool := []
deriving DecidableEq

/-- An answer that comes when no request waits for one belongs to none. -/
def Answers.next (answers : Answers) : WireEvent → Answers
  | .asked => { answers with waiting := answers.waiting + 1 }
  | .answered accepted =>
    if answers.waiting = 0 then answers
    else { waiting := answers.waiting - 1, given := answers.given ++ [accepted] }

/-- The host's answer to the request of an asker, which has its turn after the requests that take a reply
among those before. -/
def verdictOn (requests : List Request) (given : List Bool) (asker : AskId) : Option Bool :=
  given[(requests.take asker).countP Request.wantsReply]?

/-- What an asker was told is the host's answer to the request itself. In place of an answer that is not
known the asker is refused if one of the channels is `cut`, and a relay that is `finished` refuses
anyway. A request that takes no reply gets none. -/
def IsFair (requests : List Request) (given : List Bool) (finished cut : Prop) :
    AskId × Option Bool → Prop
  | (asker, told) => ∃ request, requests[asker]? = some request ∧
    if request.wantsReply then
      ∃ accepted, told = some accepted ∧
        (verdictOn requests given asker = some accepted ∨
          accepted = false ∧ (finished ∨ cut ∧ verdictOn requests given asker = none))
    else told = none

/-! ### The handler's part -/

/-- Whom the handler serves. -/
def Callback.asker? : Callback → Option AskId
  | .asking asker _ | .awaiting asker => some asker
  | .idle | .offering _ => none

/-- The request that the handler has not queued yet. -/
def Callback.unasked : Callback → List Asked
  | .asking asker request => [.of asker request]
  | _ => []

/-- Where requests are on their way from the user to the forwarding task. -/
structure Asking where
  callback : Callback
  nextAsker : AskId
  link : UserLink
  requests : Queue Asked
  fromUser : List UserInput
  verdicts : List (AskId × Option Bool)

/-- The requests are on their way in order, and whoever waits has not been told anything. -/
structure Asking.Holds (s : Asking) (taken : List Asked) : Prop where
  count : s.nextAsker = (requestsAsked s.fromUser).length
  order : taken ++ s.requests.items <+: asked (requestsAsked s.fromUser)
  whole : s.requests.fed = true → s.requests.read = true →
    taken ++ s.requests.items ++ s.callback.unasked = asked (requestsAsked s.fromUser)
  asking : ∀ asker request, s.callback = .asking asker request →
    (requestsAsked s.fromUser)[asker]? = some request
  behind : ∀ asker request, s.callback = .asking asker request →
    (taken ++ s.requests.items).length ≤ asker
  awaiting : ∀ asker, s.callback = .awaiting asker →
    ∃ request, (requestsAsked s.fromUser)[asker]? = some request ∧ request.wantsReply = true
  once : (s.verdicts.map Prod.fst).Nodup
  earlier : ∀ asker ∈ s.verdicts.map Prod.fst, asker < s.nextAsker
  unanswered : ∀ asker, s.callback.asker? = some asker → asker ∉ s.verdicts.map Prod.fst
  closed : s.requests.fed = false → UserInput.close ∈ s.fromUser ∨ s.link = .gone
  gone : s.link = .gone → s.callback = .idle

namespace Asking.Holds

variable {s : Asking} {taken : List Asked}

/-- Whoever is served has asked. -/
theorem asker_lt (h : s.Holds taken) {asker : AskId} (hasker : s.callback.asker? = some asker) :
    asker < s.nextAsker := by
  rw [h.count]
  cases hcallback : s.callback with
  | asking other request =>
    rw [hcallback] at hasker
    cases hasker
    exact (List.getElem?_eq_some_iff.mp (h.asking _ _ hcallback)).1
  | awaiting other =>
    rw [hcallback] at hasker
    cases hasker
    obtain ⟨request, hrequest, -⟩ := h.awaiting _ hcallback
    exact (List.getElem?_eq_some_iff.mp hrequest).1
  | idle | offering =>
    rw [hcallback] at hasker
    cases hasker

theorem taken_prefix (h : s.Holds taken) : taken <+: asked (requestsAsked s.fromUser) :=
  (List.prefix_append _ _).trans h.order

/-- The user sends something that is no request. -/
theorem input (h : s.Holds taken) {input : UserInput} (hrequest : input.request? = none) :
    Asking.Holds { s with fromUser := s.fromUser ++ [input] } taken := by
  have hasked : requestsAsked (s.fromUser ++ [input]) = requestsAsked s.fromUser := by
    rw [requestsAsked, List.filterMap_append, List.filterMap_cons_none hrequest]
    exact List.append_nil _
  refine ⟨?_, ?_, ?_, ?_, h.behind, ?_, h.once, h.earlier, h.unanswered, fun hfed => ?_, h.gone⟩
  · exact hasked ▸ h.count
  · exact hasked ▸ h.order
  · exact hasked ▸ h.whole
  · exact hasked ▸ h.asking
  · exact hasked ▸ h.awaiting
  · exact (h.closed hfed).imp_left fun hclose => List.mem_append_left _ hclose

/-- The handler turns to something that is no request, or to nothing. -/
theorem turn (h : s.Holds taken) {callback : Callback} (hold : s.callback.unasked = [])
    (hlink : s.link ≠ .gone) (hunasked : callback.unasked = [])
    (hasker : callback.asker? = none) : Asking.Holds { s with callback } taken := by
  have hnot : ∀ asker request, callback ≠ .asking asker request := by
    rintro asker request rfl
    cases hasker
  refine ⟨h.count, h.order, fun hfed hread => ?_, fun asker request heq => absurd heq (hnot _ _),
    fun asker request heq => absurd heq (hnot _ _), fun asker heq => ?_,
    h.once, h.earlier, fun asker heq => ?_, h.closed, fun hgone => absurd hgone hlink⟩
  · have hwhole := h.whole hfed hread
    rw [hold] at hwhole
    rw [hunasked]
    exact hwhole
  · rw [show callback = .awaiting asker from heq] at hasker
    cases hasker
  · rw [show callback.asker? = some asker from heq] at hasker
    cases hasker

/-- The handler is called for a request, which it has not queued yet. -/
theorem call (h : s.Holds taken) (hidle : s.callback = .idle) (hlink : s.link ≠ .gone)
    (request : Request) :
    Asking.Holds { s with
      callback := .asking s.nextAsker request
      nextAsker := s.nextAsker + 1
      fromUser := s.fromUser ++ [.request request] } taken := by
  have hasked : requestsAsked (s.fromUser ++ [.request request]) =
      requestsAsked s.fromUser ++ [request] := by
    rw [requestsAsked, List.filterMap_append]
    rfl
  have hunasked : Callback.unasked .idle = [] := rfl
  have hsnoc : asked (requestsAsked (s.fromUser ++ [.request request])) =
      asked (requestsAsked s.fromUser) ++ [.of s.nextAsker request] := by
    rw [hasked, asked_snoc, h.count]
  have hnext : ∀ asker ∈ s.verdicts.map Prod.fst, asker ≠ s.nextAsker := fun asker hmem =>
    Nat.ne_of_lt (h.earlier asker hmem)
  refine ⟨?_, ?_, fun hfed hread => ?_, fun asker request' heq => ?_, fun asker request' heq => ?_,
    fun asker heq => (by cases heq), h.once,
    fun asker hmem => Nat.lt_succ_of_lt (h.earlier asker hmem), fun asker heq hmem => ?_,
    fun hfed => ?_, fun hgone => absurd hgone hlink⟩
  · show s.nextAsker + 1 = _
    rw [hasked, List.length_append, h.count]
    rfl
  · show taken ++ s.requests.items <+: _
    rw [hsnoc]
    exact h.order.trans (List.prefix_append _ _)
  · have hwhole := h.whole hfed hread
    rw [hidle, hunasked, List.append_nil] at hwhole
    rw [hsnoc, ← hwhole]
    rfl
  · cases heq
    show (requestsAsked (s.fromUser ++ [.request request]))[s.nextAsker]? = _
    rw [hasked, h.count, List.getElem?_concat_length]
  · cases heq
    have hlength := h.order.length_le
    rw [asked_length, ← h.count] at hlength
    exact hlength
  · cases heq
    exact hnext _ hmem rfl
  · exact (h.closed hfed).imp_left fun hclose => List.mem_append_left _ hclose

/-- A request is queued, and the handler waits for the verdict or for nothing. -/
theorem push (h : s.Holds taken) {asker : AskId} {request : Request}
    (hcallback : s.callback = .asking asker request) (hfed : s.requests.fed = true)
    (hread : s.requests.read = true) {callback : Callback}
    (hnext : callback = .idle ∨ callback = .awaiting asker ∧ request.wantsReply = true) :
    Asking.Holds { s with
      callback
      requests := { s.requests with items := s.requests.items ++ [.of asker request] } } taken := by
  have hwhole := h.whole hfed hread
  rw [hcallback] at hwhole
  have hasker : s.callback.asker? = some asker := by rw [hcallback]; rfl
  have hlink : s.link ≠ .gone := by
    intro hgone
    rw [h.gone hgone] at hcallback
    cases hcallback
  have hitems : taken ++ (s.requests.items ++ [.of asker request]) =
      asked (requestsAsked s.fromUser) := by
    rw [← List.append_assoc]
    exact hwhole
  have hnot : ∀ other request', callback ≠ .asking other request' := by
    rcases hnext with rfl | ⟨rfl, -⟩ <;> nofun
  refine ⟨h.count, ?_, fun _ _ => ?_, fun _ _ heq => absurd heq (hnot _ _),
    fun _ _ heq => absurd heq (hnot _ _), fun other heq => ?_, h.once,
    h.earlier, fun other heq => ?_, h.closed, fun hgone => absurd hgone hlink⟩
  · exact hitems ▸ List.prefix_refl _
  · rcases hnext with rfl | ⟨rfl, -⟩
    · exact (List.append_nil _).trans hitems
    · exact (List.append_nil _).trans hitems
  · rcases hnext with rfl | ⟨rfl, hwants⟩
    · cases heq
    · cases heq
      exact ⟨request, h.asking _ _ hcallback, hwants⟩
  · rcases hnext with rfl | ⟨rfl, -⟩
    · cases heq
    · cases heq
      exact h.unanswered asker hasker

/-- An asker is told something. -/
theorem settle (h : s.Holds taken) {asker : AskId} (hlt : asker < s.nextAsker)
    (hnew : asker ∉ s.verdicts.map Prod.fst)
    (hunasked : s.requests.fed = true → s.requests.read = true → s.callback.unasked = [])
    (told : Option Bool) :
    Asking.Holds { s with callback := .idle, verdicts := s.verdicts ++ [(asker, told)] } taken := by
  refine ⟨h.count, h.order, fun hfed hread => ?_, fun _ _ heq => (by cases heq),
    fun _ _ heq => (by cases heq), fun _ heq => (by cases heq), ?_, fun other hmem => ?_,
    fun _ heq => (by cases heq), h.closed, fun _ => rfl⟩
  · have hwhole := h.whole hfed hread
    rw [hunasked hfed hread] at hwhole
    exact hwhole
  · show ((s.verdicts ++ [(asker, told)]).map Prod.fst).Nodup
    rw [List.map_append]
    refine List.nodup_append.mpr ⟨h.once, List.nodup_singleton _, fun other hmem last hlast heq => ?_⟩
    rw [heq, List.mem_singleton.mp hlast] at hmem
    exact hnew hmem
  · rw [List.map_append] at hmem
    rcases List.mem_append.mp hmem with hmem | hmem
    · exact h.earlier other hmem
    · rw [List.mem_singleton.mp hmem]
      exact hlt

/-- The user closes the channel. -/
theorem close (h : s.Holds taken) (hclose : UserInput.close ∈ s.fromUser) {link : UserLink}
    (hlink : link ≠ .gone) :
    Asking.Holds { s with requests := s.requests.finish, link } taken :=
  ⟨h.count, h.order, fun hfed => (by cases hfed), h.asking, h.behind, h.awaiting, h.once, h.earlier,
    h.unanswered, fun _ => .inl hclose, fun hgone => absurd hgone hlink⟩

/-- Something becomes of the connection while the handler does nothing. -/
theorem relink (h : s.Holds taken) (hidle : s.callback = .idle) {link : UserLink}
    (hlink : s.link = .gone → link = .gone) : Asking.Holds { s with link } taken :=
  ⟨h.count, h.order, h.whole, h.asking, h.behind, h.awaiting, h.once, h.earlier, h.unanswered,
    fun hfed => (h.closed hfed).imp_right hlink, fun _ => hidle⟩

/-- The connection is lost. -/
theorem lost (h : s.Holds taken) :
    Asking.Holds { s with callback := .idle, link := .gone, requests := s.requests.finish } taken :=
  ⟨h.count, h.order, fun hfed => (by cases hfed), fun _ _ heq => (by cases heq),
    fun _ _ heq => (by cases heq), fun _ heq => (by cases heq), h.once, h.earlier,
    fun _ heq => (by cases heq), fun _ => .inr rfl, fun _ => rfl⟩

/-- The forwarding task takes a request. -/
theorem take (h : s.Holds taken) {requests : Queue Asked} {item : Asked}
    (htake : s.requests.take = (requests, .item item)) :
    Asking.Holds { s with requests } (taken ++ [item]) := by
  unfold Queue.take at htake
  split at htake
  · next first rest hitems =>
    cases htake
    have hmove : taken ++ [item] ++ rest = taken ++ s.requests.items := by
      rw [hitems, List.append_assoc]
      rfl
    refine ⟨h.count, ?_, fun hfed hread => ?_, h.asking, fun asker request heq => ?_, h.awaiting,
      h.once, h.earlier, h.unanswered, h.closed, h.gone⟩
    · show taken ++ [item] ++ rest <+: _
      rw [hmove]
      exact h.order
    · show taken ++ [item] ++ rest ++ _ = _
      rw [hmove]
      exact h.whole hfed hread
    · show (taken ++ [item] ++ rest).length ≤ asker
      rw [hmove]
      exact h.behind asker request heq
  · split_ifs at htake <;> cases htake

/-- The forwarding task is over. -/
theorem abandon (h : s.Holds taken) :
    Asking.Holds { s with requests := s.requests.abandon } taken := by
  refine ⟨h.count, ?_, fun _ hread => (by cases hread), h.asking, fun asker request heq => ?_,
    h.awaiting, h.once, h.earlier, h.unanswered, h.closed, h.gone⟩
  · show taken ++ [] <+: _
    rw [List.append_nil]
    exact h.taken_prefix
  · have hbehind := h.behind asker request heq
    rw [List.length_append] at hbehind
    show (taken ++ []).length ≤ asker
    rw [List.append_nil]
    exact Nat.le_trans (Nat.le_add_right _ _) hbehind

end Asking.Holds

/-! ### The owner's part -/

/-- The call by which a request reaches the owner. -/
def Command.calling? : Command → Option (CallId × Incoming)
  | .request call sent wantReply => some (call, { request := sent, wantReply })
  | .close _ => none

/-- The request calls that the owner has not seen. -/
def requestCalls (commands : List Command) : List (CallId × Incoming) :=
  commands.filterMap Command.calling?

theorem requestCalls_snoc (commands : List Command) (command : Command) :
    requestCalls (commands ++ [command]) = requestCalls commands ++ command.calling?.toList := by
  rw [requestCalls, List.filterMap_append]
  refine congrArg _ ?_
  cases command <;> rfl

theorem requestCalls_cons (command : Command) (commands : List Command) :
    requestCalls (command :: commands) = command.calling?.toList ++ requestCalls commands := by
  cases command <;> rfl

/-- The forwarding task has come to its end. -/
def Forwarding.IsOver : Forwarding → Prop
  | .reporting _ | .gone => True
  | _ => False

/-- Where requests are on their way from the forwarding task to the host. -/
structure Line where
  call : Option CallId
  nextCall : CallId
  commands : List Command
  answered : List (CallId × Except RelayError Bool)
  pending : List CallId
  remoteClosed : Bool
  localClosed : Bool
  ended : Bool
  wire : List Incoming

namespace Line

/-- Whether one of the ends has closed the channel. -/
def isClosed (l : Line) : Bool :=
  l.remoteClosed || l.localClosed

/-- What there is for the host in some requests is on the wire, as far as the channel was open. -/
structure Carries (l : Line) (items : List Asked) : Prop where
  sent : l.wire <+: forHost items
  all : l.isClosed = false → l.wire = forHost items

/-- An answer is the host's, or the channel is closed and there will be none. -/
def Known (l : Line) (given : List Bool) (before : List Asked) (item : Asked) (accepted : Bool) :
    Prop :=
  item.incoming.wantReply = true →
    given[turnOf before]? = some accepted ∨
      accepted = false ∧ l.isClosed = true ∧ given[turnOf before]? = none

/-- No call is under way. -/
structure Idle (l : Line) : Prop where
  call : l.call = none
  calls : requestCalls l.commands = []
  pending : l.pending = []

/-- The call for a request is on the wire, and no answer has come. -/
structure Pending (l : Line) (given : List Bool) (before : List Asked) (item : Asked) (call : CallId) :
    Prop where
  mine : l.call = some call
  calls : requestCalls l.commands = []
  pending : l.pending = [call]
  unanswered : l.answered.lookup call = none
  carries : l.Carries (before ++ [item])
  turn : given.length = turnOf before

/-- The call for a request is answered; an answer that is no error tells of the request. -/
structure Answered (l : Line) (given : List Bool) (before : List Asked) (item : Asked) (call : CallId)
    (result : Except RelayError Bool) : Prop where
  mine : l.call = some call
  calls : requestCalls l.commands = []
  pending : l.pending = []
  answer : l.answered.lookup call = some result
  sent : l.wire <+: forHost (before ++ [item])
  known : ∀ accepted, result = .ok accepted →
    l.Carries (before ++ [item]) ∧ l.Known given before item accepted

/-- The call for a request waits for the owner. -/
structure Queued (l : Line) (before : List Asked) (item : Asked) (call : CallId) : Prop where
  mine : l.call = some call
  calls : requestCalls l.commands = [(call, item.incoming)]
  pending : l.pending = []
  unanswered : l.answered.lookup call = none
  carries : l.Carries before

/-- How far the call for a request has come. -/
inductive Sending (l : Line) (given : List Bool) (before : List Asked) (item : Asked) : Prop
  | ready : l.Idle → l.Carries before → Sending l given before item
  | queued {call} : l.Queued before item call → Sending l given before item
  | pending {call} : l.Pending given before item call → Sending l given before item
  | answered {call result} : l.Answered given before item call result → Sending l given before item

/-- The task has left the line; its last call may still wait for the owner. -/
inductive Left (l : Line) (taken : List Asked) : Prop
  | clear : requestCalls l.commands = [] → l.wire <+: forHost taken → Left l taken
  | queued {before item call} : taken = before ++ [item] →
      requestCalls l.commands = [(call, item.incoming)] → l.Carries before → Left l taken

/-- How far the last of the requests that were taken has come. The ones before are done with. -/
def Stage (l : Line) (given : List Bool) (taken : List Asked) : Forwarding → Prop
  | .waiting => l.Idle ∧ l.Carries taken
  | .recording incoming => ∃ before item, taken = before ++ [item] ∧ item.incoming = incoming ∧
      l.Idle ∧ l.Carries before
  | .sending incoming => ∃ before item, taken = before ++ [item] ∧ item.incoming = incoming ∧
      l.Sending given before item
  | .replying accepted => ∃ before item, taken = before ++ [item] ∧ l.Idle ∧ l.Carries taken ∧
      l.Known given before item accepted
  | .reporting _ | .gone => l.Left taken

/-- The request calls that there have been. -/
def used (l : Line) : List CallId :=
  (requestCalls l.commands).map Prod.fst ++ l.pending ++ l.answered.map Prod.fst

/-- Requests reach the host in order, and the host's answers belong to them in turn. -/
structure Holds (l : Line) (state : Forwarding) (answers : Answers) (taken : List Asked) : Prop where
  stage : l.Stage answers.given taken state
  plain : ∀ item ∈ taken, item.IsPlain
  fresh : ∀ call ∈ l.used, call < l.nextCall
  tally : answers.given.length + answers.waiting = l.wire.countP Incoming.wantReply
  waits : l.remoteClosed = false → l.ended = false → answers.waiting = l.pending.length

variable {l l' : Line} {state : Forwarding} {answers : Answers} {given : List Bool}
  {taken before : List Asked} {item : Asked}

theorem Carries.snoc (h : l.Carries before) (item : Asked) : l.wire <+: forHost (before ++ [item]) :=
  h.sent.trans (forHost_prefix_append before item)

theorem Sending.left (h : l.Sending given before item) : l.Left (before ++ [item]) := by
  cases h with
  | ready hidle hcarries => exact .clear hidle.calls (hcarries.snoc item)
  | queued hqueued => exact .queued rfl hqueued.calls hqueued.carries
  | pending hpending => exact .clear hpending.calls hpending.carries.sent
  | answered hanswered => exact .clear hanswered.calls hanswered.sent

/-- The task may leave at any stage. -/
theorem Stage.left (h : l.Stage given taken state) : l.Left taken := by
  cases state with
  | waiting => exact .clear h.1.calls h.2.sent
  | recording =>
    obtain ⟨before, item, rfl, -, hidle, hcarries⟩ := h
    exact .clear hidle.calls (hcarries.snoc item)
  | sending =>
    obtain ⟨before, item, rfl, -, hsending⟩ := h
    exact hsending.left
  | replying =>
    obtain ⟨before, item, -, hidle, hcarries, -⟩ := h
    exact .clear hidle.calls hcarries.sent
  | reporting | gone => exact h

theorem Left.sent (h : l.Left taken) : l.wire <+: forHost taken := by
  cases h with
  | clear _ hsent => exact hsent
  | @queued _ item _ heq _ hcarries => exact heq ▸ hcarries.snoc item

/-- There are no more answers than requests that take one. -/
theorem Holds.given_le (h : l.Holds state answers taken) : answers.given.length ≤ turnOf taken := by
  calc answers.given.length
      ≤ l.wire.countP Incoming.wantReply := by have := h.tally; omega
    _ ≤ (forHost taken).countP Incoming.wantReply := h.stage.left.sent.countP_le
    _ = turnOf taken := countP_forHost h.plain

/-! ### The forwarding task's steps -/

theorem Stage.of_over {next : Forwarding} (hover : next.IsOver) (h : l.Left taken) :
    l.Stage given taken next := by
  cases next with
  | reporting | gone => exact h
  | _ => exact hover.elim

/-- The task comes to its end. -/
theorem Holds.ends (h : l.Holds state answers taken) {next : Forwarding} (hover : next.IsOver) :
    l.Holds next answers taken :=
  ⟨.of_over hover h.stage.left, h.plain, h.fresh, h.tally, h.waits⟩

/-- The task takes a request. -/
theorem Holds.takes (h : l.Holds .waiting answers taken) (hplain : item.IsPlain) {next : Forwarding}
    (hnext : next = .recording item.incoming ∨ next = .sending item.incoming) :
    l.Holds next answers (taken ++ [item]) := by
  obtain ⟨hidle, hcarries⟩ := h.stage
  refine ⟨?_, fun other hmem => ?_, h.fresh, h.tally, h.waits⟩
  · rcases hnext with rfl | rfl
    · exact ⟨taken, item, rfl, rfl, hidle, hcarries⟩
    · exact ⟨taken, item, rfl, rfl, .ready hidle hcarries⟩
  · rcases List.mem_append.mp hmem with hmem | hmem
    · exact h.plain other hmem
    · rw [List.mem_singleton.mp hmem]
      exact hplain

/-- A command is recorded. -/
theorem Holds.records {incoming : Incoming} (h : l.Holds (.recording incoming) answers taken) :
    l.Holds (.sending incoming) answers taken := by
  obtain ⟨before, item, htaken, hitem, hidle, hcarries⟩ := h.stage
  exact ⟨⟨before, item, htaken, hitem, .ready hidle hcarries⟩, h.plain, h.fresh, h.tally, h.waits⟩

/-- The task has passed the answer back. -/
theorem Holds.replies {accepted : Bool} (h : l.Holds (.replying accepted) answers taken) :
    l.Holds .waiting answers taken := by
  obtain ⟨before, item, -, hidle, hcarries, -⟩ := h.stage
  exact ⟨⟨hidle, hcarries⟩, h.plain, h.fresh, h.tally, h.waits⟩

/-- The task calls the owner. -/
theorem Holds.asks {incoming : Incoming} (h : l.Holds (.sending incoming) answers taken)
    (hcall : l.call = none) :
    Holds { l with
      call := some l.nextCall
      nextCall := l.nextCall + 1
      commands := l.commands ++ [.request l.nextCall incoming.request incoming.wantReply] }
      (.sending incoming) answers taken := by
  obtain ⟨before, item, htaken, hitem, hsending⟩ := h.stage
  have hready : l.Idle ∧ l.Carries before := by
    cases hsending with
    | ready hidle hcarries => exact ⟨hidle, hcarries⟩
    | queued hother | pending hother | answered hother =>
      exact absurd (hcall.symm.trans hother.mine) nofun
  obtain ⟨hidle, hcarries⟩ := hready
  have hcalls : requestCalls (l.commands ++ [.request l.nextCall incoming.request incoming.wantReply]) =
      [(l.nextCall, incoming)] := by
    rw [requestCalls_snoc, hidle.calls]
    rfl
  have hnew : l.answered.lookup l.nextCall = none := by
    refine List.lookup_eq_none_iff.mpr fun entry hmem => ?_
    have hlt := h.fresh entry.1 (List.mem_append_right _ (List.mem_map_of_mem hmem))
    simpa using Nat.ne_of_gt hlt
  refine ⟨⟨before, item, htaken, hitem, .queued ⟨rfl, hitem ▸ hcalls, hidle.pending, hnew, ?_⟩⟩, h.plain,
    fun call hmem => ?_, h.tally, h.waits⟩
  · exact ⟨hcarries.sent, hcarries.all⟩
  · show call < l.nextCall + 1
    rcases List.mem_append.mp hmem with hmem | hmem
    · rcases List.mem_append.mp hmem with hmem | hmem
      · rw [hcalls] at hmem
        rw [List.mem_singleton.mp hmem]
        exact Nat.lt_succ_self _
      · exact Nat.lt_succ_of_lt (h.fresh call (List.mem_append_left _ (List.mem_append_right _ hmem)))
    · exact Nat.lt_succ_of_lt (h.fresh call (List.mem_append_right _ hmem))

/-- The task has the owner's answer. -/
theorem Holds.collects {incoming : Incoming} {call : CallId} {result : Except RelayError Bool}
    (h : l.Holds (.sending incoming) answers taken) (hcall : l.call = some call)
    (hresult : l.answered.lookup call = some result) :
    (∀ e, result = .error e → Holds { l with call := none } (.reporting (.error e)) answers taken) ∧
      ∀ accepted, result = .ok accepted →
        Holds { l with call := none } (if incoming.wantReply then .replying accepted else .waiting)
          answers taken := by
  obtain ⟨before, item, htaken, hitem, hsending⟩ := h.stage
  have hanswered : l.Answered answers.given before item call result := by
    cases hsending with
    | ready hidle => exact absurd (hidle.call.symm.trans hcall) nofun
    | queued hother | pending hother =>
      cases hcall.symm.trans hother.mine
      exact absurd (hother.unanswered.symm.trans hresult) nofun
    | answered hother =>
      cases hcall.symm.trans hother.mine
      cases hresult.symm.trans hother.answer
      exact hother
  have hmoved : ∀ {next : Forwarding}, Stage { l with call := none } answers.given taken next →
      Holds { l with call := none } next answers taken := fun hstage =>
    ⟨hstage, h.plain, h.fresh, h.tally, h.waits⟩
  constructor
  · rintro e rfl
    exact hmoved (.clear hanswered.calls (htaken ▸ hanswered.sent))
  · intro accepted hok
    obtain ⟨hcarries, hknown⟩ := hanswered.known accepted hok
    have hcarries' : Carries { l with call := none } taken := htaken ▸ ⟨hcarries.sent, hcarries.all⟩
    have hidle : Idle { l with call := none } := ⟨rfl, hanswered.calls, hanswered.pending⟩
    refine hmoved ?_
    split_ifs
    · exact ⟨before, item, htaken, hidle, hcarries', hknown⟩
    · exact ⟨hidle, hcarries'⟩

/-! ### The owner's steps -/

/-- Nothing changes for requests but that the channel may be closed. -/
structure Quiet (l l' : Line) : Prop where
  call : l'.call = l.call
  calls : requestCalls l'.commands = requestCalls l.commands
  answered : l'.answered = l.answered
  pending : l'.pending = l.pending
  wire : l'.wire = l.wire
  closed : l.isClosed = true → l'.isClosed = true

theorem Carries.of_eq {items : List Asked} (h : l.Carries items) (hwire : l'.wire = l.wire)
    (hclosed : l.isClosed = true → l'.isClosed = true) : l'.Carries items := by
  refine ⟨hwire ▸ h.sent, fun hopen => ?_⟩
  rw [hwire]
  refine h.all (Bool.eq_false_iff.mpr fun hold => ?_)
  rw [hclosed hold] at hopen
  cases hopen

theorem Known.closes {accepted : Bool} (h : l.Known given before item accepted)
    (hclosed : l.isClosed = true → l'.isClosed = true) : l'.Known given before item accepted := by
  intro hwant
  rcases h hwant with hgiven | ⟨hfalse, hold, hnone⟩
  · exact .inl hgiven
  · exact .inr ⟨hfalse, hclosed hold, hnone⟩

theorem Left.of_eq (h : l.Left taken) (hcalls : requestCalls l'.commands = requestCalls l.commands)
    (hwire : l'.wire = l.wire) (hclosed : l.isClosed = true → l'.isClosed = true) : l'.Left taken := by
  cases h with
  | clear hnone hsent => exact .clear (hcalls.trans hnone) (hwire ▸ hsent)
  | queued htaken hone hcarries =>
    exact .queued htaken (hcalls.trans hone) (hcarries.of_eq hwire hclosed)

theorem Sending.quiet (h : l.Sending given before item) (hquiet : Quiet l l') :
    l'.Sending given before item := by
  cases h with
  | ready hidle hcarries =>
    exact .ready ⟨hquiet.call.trans hidle.call, hquiet.calls.trans hidle.calls,
      hquiet.pending.trans hidle.pending⟩ (hcarries.of_eq hquiet.wire hquiet.closed)
  | queued hqueued =>
    refine .queued ⟨hquiet.call.trans hqueued.mine, hquiet.calls.trans hqueued.calls,
      hquiet.pending.trans hqueued.pending, ?_, hqueued.carries.of_eq hquiet.wire hquiet.closed⟩
    rw [hquiet.answered]
    exact hqueued.unanswered
  | pending hpending =>
    refine .pending ⟨hquiet.call.trans hpending.mine, hquiet.calls.trans hpending.calls,
      hquiet.pending.trans hpending.pending, ?_, hpending.carries.of_eq hquiet.wire hquiet.closed,
      hpending.turn⟩
    rw [hquiet.answered]
    exact hpending.unanswered
  | @answered call result hanswered =>
    have hanswer : l'.answered.lookup call = some result := hquiet.answered ▸ hanswered.answer
    refine .answered ⟨hquiet.call.trans hanswered.mine, hquiet.calls.trans hanswered.calls,
      hquiet.pending.trans hanswered.pending, hanswer, hquiet.wire ▸ hanswered.sent,
      fun accepted hok => ?_⟩
    obtain ⟨hcarries, hknown⟩ := hanswered.known accepted hok
    exact ⟨hcarries.of_eq hquiet.wire hquiet.closed, hknown.closes hquiet.closed⟩

theorem Stage.quiet (h : l.Stage given taken state) (hquiet : Quiet l l') :
    l'.Stage given taken state := by
  have hidle : l.Idle → l'.Idle := fun hidle => ⟨hquiet.call.trans hidle.call,
    hquiet.calls.trans hidle.calls, hquiet.pending.trans hidle.pending⟩
  cases state with
  | waiting => exact ⟨hidle h.1, h.2.of_eq hquiet.wire hquiet.closed⟩
  | recording =>
    obtain ⟨before, item, htaken, hitem, hidle', hcarries⟩ := h
    exact ⟨before, item, htaken, hitem, hidle hidle', hcarries.of_eq hquiet.wire hquiet.closed⟩
  | sending =>
    obtain ⟨before, item, htaken, hitem, hsending⟩ := h
    exact ⟨before, item, htaken, hitem, hsending.quiet hquiet⟩
  | replying =>
    obtain ⟨before, item, htaken, hidle', hcarries, hknown⟩ := h
    exact ⟨before, item, htaken, hidle hidle', hcarries.of_eq hquiet.wire hquiet.closed,
      hknown.closes hquiet.closed⟩
  | reporting | gone => exact Left.of_eq h hquiet.calls hquiet.wire hquiet.closed

theorem Holds.quiet (h : l.Holds state answers taken) (hquiet : Quiet l l')
    (hnext : l.nextCall ≤ l'.nextCall) (hopen : l'.remoteClosed = false → l.remoteClosed = false)
    (hended : l'.ended = false → l.ended = false) : l'.Holds state answers taken := by
  refine ⟨h.stage.quiet hquiet, h.plain, fun call hmem => ?_, ?_, fun hopen' hended' => ?_⟩
  · rw [used, hquiet.calls, hquiet.pending, hquiet.answered] at hmem
    exact Nat.lt_of_lt_of_le (h.fresh call hmem) hnext
  · rw [hquiet.wire]
    exact h.tally
  · rw [hquiet.pending]
    exact h.waits (hopen hopen') (hended hended')

/-- Only the call of a task that waits, or of one that has left, is on the wire without an answer. -/
theorem Stage.pending_cases (h : l.Stage given taken state) :
    l.pending = [] ∨
      (∃ before item call, state = .sending item.incoming ∧ taken = before ++ [item] ∧
        l.Pending given before item call) ∨
      state.IsOver ∧ l.Left taken := by
  cases state with
  | waiting => exact .inl h.1.pending
  | recording =>
    obtain ⟨before, item, -, -, hidle, -⟩ := h
    exact .inl hidle.pending
  | sending =>
    obtain ⟨before, item, rfl, rfl, hsending⟩ := h
    cases hsending with
    | ready hidle => exact .inl hidle.pending
    | queued hqueued => exact .inl hqueued.pending
    | pending hpending => exact .inr (.inl ⟨before, item, _, rfl, rfl, hpending⟩)
    | answered hanswered => exact .inl hanswered.pending
  | replying =>
    obtain ⟨before, item, -, hidle, -⟩ := h
    exact .inl hidle.pending
  | reporting | gone => exact .inr (.inr ⟨trivial, h⟩)

/-- A call of a task that waits, or of one that has left, may be with the owner. -/
theorem Stage.calls_cases (h : l.Stage given taken state) :
    requestCalls l.commands = [] ∨
      (∃ before item call, state = .sending item.incoming ∧ taken = before ++ [item] ∧
        l.Queued before item call) ∨
      state.IsOver ∧ ∃ before item call, taken = before ++ [item] ∧
        requestCalls l.commands = [(call, item.incoming)] ∧ l.Carries before := by
  cases state with
  | waiting => exact .inl h.1.calls
  | recording =>
    obtain ⟨before, item, -, -, hidle, -⟩ := h
    exact .inl hidle.calls
  | sending =>
    obtain ⟨before, item, rfl, rfl, hsending⟩ := h
    cases hsending with
    | ready hidle => exact .inl hidle.calls
    | queued hqueued => exact .inr (.inl ⟨before, item, _, rfl, rfl, hqueued⟩)
    | pending hpending => exact .inl hpending.calls
    | answered hanswered => exact .inl hanswered.calls
  | replying =>
    obtain ⟨before, item, -, hidle, -⟩ := h
    exact .inl hidle.calls
  | reporting | gone =>
    cases h with
    | clear hnone => exact .inl hnone
    | queued htaken hone hcarries => exact .inr (.inr ⟨trivial, _, _, _, htaken, hone, hcarries⟩)

/-- An answer for which nobody waits. -/
theorem Holds.ignores (h : l.Holds state answers taken) (hopen : l.remoteClosed = false)
    (hended : l.ended = false) (hpending : l.pending = []) (accepted : Bool) :
    l.Holds state (answers.next (.answered accepted)) taken := by
  have hwaits : answers.waiting = 0 := by
    rw [h.waits hopen hended, hpending]
    rfl
  rw [Answers.next, if_pos hwaits]
  exact h

/-- Calls that are put on the wire or are answered have been there before. -/
theorem used_perm (done : List CallId)
    (hmoved : ((requestCalls l.commands).map Prod.fst ++ l.pending).Perm
      (done ++ ((requestCalls l'.commands).map Prod.fst ++ l'.pending)))
    (hanswered : l'.answered.map Prod.fst = l.answered.map Prod.fst ++ done) :
    l'.used.Perm l.used := by
  refine List.perm_iff_count.mpr fun call => ?_
  have hcount := hmoved.count_eq call
  simp only [List.count_append] at hcount
  rw [used, used, hanswered]
  simp only [List.count_append]
  omega

theorem map_fst_answers (entries : List (CallId × Except RelayError Bool)) (calls : List CallId)
    (result : Except RelayError Bool) :
    (entries ++ calls.map fun call => (call, result)).map Prod.fst = entries.map Prod.fst ++ calls := by
  rw [List.map_append, List.map_map]
  exact congrArg _ (List.map_id calls)

theorem lookup_snoc {entries : List (CallId × Except RelayError Bool)} {call : CallId}
    (h : entries.lookup call = none) (result : Except RelayError Bool) :
    (entries ++ [(call, result)]).lookup call = some result := by
  rw [List.lookup_append, h, Option.none_or, List.lookup_cons_self]

/-- The host answers the call that waits. -/
theorem Holds.hears (h : l.Holds state answers taken) (hopen : l.remoteClosed = false)
    (hended : l.ended = false) {call : CallId} {rest : List CallId} (hpending : l.pending = call :: rest)
    (accepted : Bool) :
    Holds { l with pending := rest, answered := l.answered ++ [(call, .ok accepted)] } state
      (answers.next (.answered accepted)) taken := by
  have hwaits : answers.waiting = rest.length + 1 := by
    rw [h.waits hopen hended, hpending]
    rfl
  have hnext : answers.next (.answered accepted) =
      { waiting := rest.length, given := answers.given ++ [accepted] } := by
    rw [Answers.next, if_neg (by omega), hwaits]
    rfl
  rw [hnext]
  refine ⟨?_, h.plain, fun other hmem => h.fresh other ?_, ?_, fun _ _ => rfl⟩
  · rcases h.stage.pending_cases with hnone | ⟨before, item, mine, rfl, rfl, hmine⟩ | ⟨hover, hleft⟩
    · rw [hpending] at hnone
      cases hnone
    · -- As many answers were given as requests before the last one take, so this is the one to it.
      cases hpending.symm.trans hmine.pending
      refine ⟨before, item, rfl, rfl, .answered ⟨hmine.mine, hmine.calls, rfl,
        lookup_snoc hmine.unanswered _, hmine.carries.sent, fun accepted' hok => ?_⟩⟩
      cases hok
      refine ⟨⟨hmine.carries.sent, hmine.carries.all⟩, fun _ => .inl ?_⟩
      rw [← hmine.turn, List.getElem?_concat_length]
    · exact .of_over hover (hleft.of_eq rfl rfl id)
  · refine (used_perm [call] ?_ List.map_append).subset hmem
    rw [hpending]
    exact List.perm_middle
  · have htally := h.tally
    show (answers.given ++ [accepted]).length + rest.length = _
    rw [List.length_append, List.length_singleton]
    show _ = l.wire.countP Incoming.wantReply
    omega

/-- The host closes the channel. -/
theorem Holds.hearsClose (h : l.Holds state answers taken) :
    Holds { l with
      remoteClosed := true
      pending := []
      answered := l.answered ++ l.pending.map fun call => (call, .ok false) } state answers taken := by
  refine ⟨?_, h.plain, fun call hmem => h.fresh call ?_, h.tally, fun hno => (by cases hno)⟩
  · rcases h.stage.pending_cases with hnone | ⟨before, item, mine, rfl, rfl, hmine⟩ | ⟨hover, hleft⟩
    · refine h.stage.quiet ⟨rfl, rfl, ?_, hnone.symm, rfl, fun _ => rfl⟩
      rw [hnone]
      exact List.append_nil _
    · have hanswer : (l.answered ++ l.pending.map fun call => (call, Except.ok false)).lookup mine =
          some (.ok false) := by
        rw [hmine.pending]
        exact lookup_snoc hmine.unanswered _
      refine ⟨before, item, rfl, rfl, .answered ⟨hmine.mine, hmine.calls, rfl, hanswer,
        hmine.carries.sent, fun accepted hok => ?_⟩⟩
      cases hok
      refine ⟨hmine.carries.of_eq rfl fun _ => rfl, fun _ => .inr ⟨rfl, rfl, ?_⟩⟩
      exact List.getElem?_eq_none (Nat.le_of_eq hmine.turn)
    · exact .of_over hover (hleft.of_eq rfl rfl fun _ => rfl)
  · refine (used_perm l.pending ?_ (map_fst_answers _ _ _)).subset hmem
    exact List.perm_append_comm.trans (.of_eq (congrArg _ (List.append_nil _).symm))

/-- The owner ends, and the forwarding task has ended before. -/
theorem Holds.finishes (h : l.Holds state answers taken) (hover : state.IsOver) :
    Holds { l with
      localClosed := true
      ended := true
      pending := []
      answered := l.answered ++ l.pending.map fun call => (call, .error (.closed .outbound)) }
      state answers taken := by
  refine ⟨?_, h.plain, fun call hmem => h.fresh call ?_, h.tally, fun _ hno => (by cases hno)⟩
  · refine .of_over hover (h.stage.left.of_eq rfl rfl fun _ => ?_)
    exact Bool.or_true _
  · refine (used_perm l.pending ?_ (map_fst_answers _ _ _)).subset hmem
    exact List.perm_append_comm.trans (.of_eq (congrArg _ (List.append_nil _).symm))

/-- What the owner has to do next is the last request that was taken. -/
theorem Holds.next_request (h : l.Holds state answers taken) {call : CallId} {incoming : Incoming}
    {commands : List Command}
    (hcalls : requestCalls l.commands = (call, incoming) :: requestCalls commands) :
    ∃ before item, taken = before ++ [item] ∧ item.incoming = incoming ∧ requestCalls commands = [] ∧
      l.Carries before ∧
      (state = .sending incoming ∧ l.Queued before item call ∨ state.IsOver) := by
  rcases h.stage.calls_cases with
    hnone | ⟨before, item, mine, rfl, rfl, hmine⟩ | ⟨hover, before, item, mine, rfl, hone, hcarries⟩
  · rw [hcalls] at hnone
    cases hnone
  · have hsame := hcalls.symm.trans hmine.calls
    simp only [List.cons.injEq, Prod.mk.injEq] at hsame
    obtain ⟨⟨rfl, rfl⟩, hrest⟩ := hsame
    exact ⟨before, item, rfl, rfl, hrest, hmine.carries, .inl ⟨rfl, hmine⟩⟩
  · have hsame := hcalls.symm.trans hone
    simp only [List.cons.injEq, Prod.mk.injEq] at hsame
    obtain ⟨⟨rfl, rfl⟩, hrest⟩ := hsame
    exact ⟨before, item, rfl, rfl, hrest, hcarries, .inr hover⟩

/-- The owner does not put a request on the wire. -/
theorem Holds.refuses (h : l.Holds state answers taken) {call : CallId} {incoming : Incoming}
    {commands : List Command}
    (hcalls : requestCalls l.commands = (call, incoming) :: requestCalls commands)
    {result : Except RelayError Bool}
    (hresult : ∀ accepted, result = .ok accepted →
      accepted = false ∧ (l.isClosed = true ∨ incoming.request.isForServer = false)) :
    Holds { l with commands, answered := l.answered ++ [(call, result)] } state answers taken := by
  obtain ⟨before, item, rfl, rfl, hrest, hcarries, hstate⟩ := h.next_request hcalls
  refine ⟨?_, h.plain, fun other hmem => h.fresh other ?_, h.tally, h.waits⟩
  · rcases hstate with ⟨rfl, hmine⟩ | hover
    · refine ⟨before, item, rfl, rfl, .answered ⟨hmine.mine, hrest, hmine.pending,
        lookup_snoc hmine.unanswered result, hcarries.snoc item, fun accepted hok => ?_⟩⟩
      obtain ⟨rfl, hwhy⟩ := hresult accepted hok
      have hplain : item.IsPlain := h.plain item (List.mem_append_right _ List.mem_cons_self)
      refine ⟨⟨hcarries.snoc item, fun hopen => ?_⟩, fun hwant => ?_⟩
      · have hserver : item.incoming.request.isForServer = false := by
          rcases hwhy with hclosed | hserver
          · exact absurd (hopen.symm.trans hclosed) nofun
          · exact hserver
        rw [forHost_snoc, hserver]
        exact (hcarries.all hopen).trans (List.append_nil _).symm
      · rcases hwhy with hclosed | hserver
        · refine .inr ⟨rfl, hclosed, List.getElem?_eq_none ?_⟩
          -- No more was put on the wire than the requests before this one.
          calc answers.given.length
              ≤ l.wire.countP Incoming.wantReply := by have := h.tally; omega
            _ ≤ (forHost before).countP Incoming.wantReply := hcarries.sent.countP_le
            _ = turnOf before := countP_forHost fun other hmem =>
                h.plain other (List.mem_append_left _ hmem)
        · rw [Asked.IsPlain, hwant] at hplain
          rw [isForServer_of_wantsReply hplain.symm] at hserver
          cases hserver
    · exact .of_over hover (.clear hrest (hcarries.snoc item))
  · refine (used_perm [call] ?_ List.map_append).subset hmem
    rw [hcalls]
    exact .refl _

/-- The owner puts a request on the wire that takes no reply. -/
theorem Holds.sends (h : l.Holds state answers taken) {call : CallId} {incoming : Incoming}
    {commands : List Command}
    (hcalls : requestCalls l.commands = (call, incoming) :: requestCalls commands)
    (hopen : l.isClosed = false) (hserver : incoming.request.isForServer = true)
    (hwant : incoming.wantReply = false) :
    Holds { l with
      commands
      wire := l.wire ++ [incoming]
      answered := l.answered ++ [(call, .ok false)] } state answers taken := by
  obtain ⟨before, item, rfl, rfl, hrest, hcarries, hstate⟩ := h.next_request hcalls
  have hwire : l.wire ++ [item.incoming] = forHost (before ++ [item]) := by
    rw [forHost_snoc, hserver, hcarries.all hopen]
    rfl
  refine ⟨?_, h.plain, fun other hmem => h.fresh other ?_, ?_, h.waits⟩
  · rcases hstate with ⟨rfl, hmine⟩ | hover
    · refine ⟨before, item, rfl, rfl, .answered ⟨hmine.mine, hrest, hmine.pending,
        lookup_snoc hmine.unanswered _, hwire ▸ List.prefix_refl _, fun accepted hok => ?_⟩⟩
      exact ⟨⟨hwire ▸ List.prefix_refl _, fun _ => hwire⟩,
        fun hno => absurd (hwant.symm.trans hno) nofun⟩
    · exact .of_over hover (.clear hrest (hwire ▸ List.prefix_refl _))
  · refine (used_perm [call] ?_ List.map_append).subset hmem
    rw [hcalls]
    exact .refl _
  · show _ = (l.wire ++ [item.incoming]).countP Incoming.wantReply
    rw [List.countP_append, List.countP_cons_of_neg (by rw [hwant]; decide), List.countP_nil]
    exact h.tally

/-- The owner puts a request on the wire that takes a reply. -/
theorem Holds.sendsAsking (h : l.Holds state answers taken) {call : CallId} {incoming : Incoming}
    {commands : List Command}
    (hcalls : requestCalls l.commands = (call, incoming) :: requestCalls commands)
    (hopen : l.isClosed = false) (hended : l.ended = false)
    (hserver : incoming.request.isForServer = true) (hwant : incoming.wantReply = true) :
    Holds { l with commands, wire := l.wire ++ [incoming], pending := l.pending ++ [call] } state
      (answers.next .asked) taken := by
  obtain ⟨before, item, rfl, rfl, hrest, hcarries, hstate⟩ := h.next_request hcalls
  have hwire : l.wire ++ [item.incoming] = forHost (before ++ [item]) := by
    rw [forHost_snoc, hserver, hcarries.all hopen]
    rfl
  have hremote : l.remoteClosed = false := (Bool.or_eq_false_iff.mp hopen).1
  have hwaits := h.waits hremote hended
  have htally := h.tally
  refine ⟨?_, h.plain, fun other hmem => h.fresh other ?_, ?_, fun _ _ => ?_⟩
  · rcases hstate with ⟨rfl, hmine⟩ | hover
    · refine ⟨before, item, rfl, rfl, .pending ⟨hmine.mine, hrest, ?_, hmine.unanswered,
        ⟨hwire ▸ List.prefix_refl _, fun _ => hwire⟩, ?_⟩⟩
      · show l.pending ++ [call] = [call]
        rw [hmine.pending]
        rfl
      · show answers.given.length = turnOf before
        rw [hmine.pending] at hwaits
        have hcount : l.wire.countP Incoming.wantReply = turnOf before := by
          rw [hcarries.all hopen]
          exact countP_forHost fun other hmem => h.plain other (List.mem_append_left _ hmem)
        rw [List.length_nil] at hwaits
        omega
    · exact .of_over hover (.clear hrest (hwire ▸ List.prefix_refl _))
  · refine (used_perm [] ?_ ?_).subset hmem
    · rw [hcalls, hrest]
      exact (List.perm_append_singleton call l.pending).symm
    · exact (List.append_nil _).symm
  · show answers.given.length + (answers.waiting + 1) =
      (l.wire ++ [item.incoming]).countP Incoming.wantReply
    rw [List.countP_append, List.countP_cons_of_pos hwant, List.countP_nil]
    omega
  · show answers.waiting + 1 = (l.pending ++ [call]).length
    rw [List.length_append, List.length_singleton, hwaits]

end Line

end Gatehouse.Relay
