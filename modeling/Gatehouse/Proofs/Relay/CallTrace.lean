import Gatehouse.Proofs.History
import Gatehouse.Relay.Controller

/-!
# What happens between the owner and its callers

What has happened is a list of events, and each event must be lawful after those before it (`Lawful`). In
particular every answer has its reason (`Reason`), which is found in what has happened before it.

`Sound` says what the events have to do with the owner and with the calls that wait. It is kept by whatever
is appended: by the answers to calls that wait (`Sound.answer`), and by what happens in between.
-/

namespace Gatehouse.Relay

namespace Controller

/-! ### What the events say -/

/-- The call that an event answers. -/
def answer? : OwnerEvent → Option CallId
  | .answered call _ | .closeAnswered call _ => some call
  | _ => none

/-- The calls that have been answered, in the order of the answers. -/
def answers (trace : List OwnerEvent) : List CallId :=
  trace.filterMap answer?

/-- The call that an event makes. -/
def call? : OwnerEvent → Option CallId
  | .called command => some command.call
  | _ => none

/-- The calls that have been made, in this order. -/
def calls (trace : List OwnerEvent) : List CallId :=
  trace.filterMap call?

/-- What has been asked of the host and what it has said: the calls whose requests were put on the wire and
want a reply, and the verdicts that found one of these without a verdict. -/
structure Exchange where
  asked : List CallId := []
  verdicts : List Bool := []

namespace Exchange

/-- A verdict comes. If there is one for each request already, it finds none pending. -/
def hear (x : Exchange) (accepted : Bool) : Exchange :=
  if x.verdicts.length < x.asked.length then { x with verdicts := x.verdicts ++ [accepted] } else x

/-- The exchange after one more event. -/
def add (x : Exchange) : OwnerEvent → Exchange
  | .sent call incoming => if incoming.wantReply then { x with asked := x.asked ++ [call] } else x
  | .heard .success => x.hear true
  | .heard .failure => x.hear false
  | _ => x

end Exchange

/-- What has been asked of the host and what it has said by these events. -/
def exchange (trace : List OwnerEvent) : Exchange :=
  trace.foldl Exchange.add {}

/-- One of the two ends has closed the channel. -/
def Shut (before : List OwnerEvent) : Prop :=
  .closed ∈ before ∨ .heard .close ∈ before

/-- The request of a call has not been put on the wire. -/
def Unsent (before : List OwnerEvent) (call : CallId) : Prop :=
  ∀ incoming, .sent call incoming ∉ before

/-! ### Lawful events -/

/-- Why a call for a request is answered like this. -/
inductive Reason (before : List OwnerEvent) (call : CallId) (request : Request) (wantReply : Bool) :
    Except RelayError Bool → Prop where
  /-- The host has given its verdict. -/
  | verdict {n : Nat} {accepted} : (exchange before).asked[n]? = some call →
      (exchange before).verdicts[n]? = some accepted → Reason before call request wantReply (.ok accepted)
  /-- The request has been put on the wire and takes no reply. -/
  | noReply : .sent call { request, wantReply := false } ∈ before →
      Reason before call request wantReply (.ok false)
  /-- Such a request is never sent to a host. -/
  | notForServer : request.isForServer = false → Unsent before call →
      Reason before call request wantReply (.ok false)
  /-- The channel was closed before the request could be sent. -/
  | shut : Shut before → Unsent before call → Reason before call request wantReply (.ok false)
  /-- The host closed the channel before it gave its verdict. -/
  | hungUp {n : Nat} : .heard .close ∈ before → (exchange before).asked[n]? = some call →
      (exchange before).verdicts.length ≤ n → Reason before call request wantReply (.ok false)
  /-- The request could not be sent. -/
  | failed {reason} : .taken (.request call request wantReply) (.error reason) ∈ before →
      Unsent before call → Reason before call request wantReply (.error (.send .outbound reason))
  /-- The owner has ended. -/
  | forsaken : .ended ∈ before → Reason before call request wantReply (.error (.closed .outbound))

/-- A call can be answered like this. A call for closing is answered when the channel is closed; it may
fail by the closing that was done for it. -/
def Due (before : List OwnerEvent) : OwnerEvent → Prop
  | .answered call result => ∃ request wantReply,
      .called (.request call request wantReply) ∈ before ∧ Reason before call request wantReply result
  | .closeAnswered call result => .called (.close call) ∈ before ∧ Shut before ∧
      (result = .ok () ∨ ∃ reason, result = .error (.send .outbound reason) ∧
        .taken (.close call) (.error reason) ∈ before)
  | _ => False

/-- What may happen after these events. A request is put on the wire once, for its call, while the owner is
there and nobody has closed the channel. The channel is closed only while nobody has closed it. A call is
answered once. Nothing is heard from a host that has closed the channel. -/
def Lawful (before : List OwnerEvent) : OwnerEvent → Prop
  | .sent call incoming => ¬ Shut before ∧ .ended ∉ before ∧ Unsent before call ∧
      ∃ wantReply, .called (.request call incoming.request wantReply) ∈ before ∧
        incoming.wantReply = (wantReply && incoming.request.wantsReply)
  | .closed => ¬ Shut before
  | .answered call result => call ∉ answers before ∧ Due before (.answered call result)
  | .closeAnswered call result => call ∉ answers before ∧ Due before (.closeAnswered call result)
  | .heard _ => .heard .close ∉ before ∧ .ended ∉ before
  | _ => True

/-- The calls that wait, and the calls that have been answered, are the calls that have been made. -/
structure Balanced (waiting : List CallId) (trace : List OwnerEvent) : Prop where
  perm : (waiting ++ answers trace).Perm (calls trace)
  nodup : (calls trace).Nodup

/-- The calls that wait for an answer. -/
def waiting (c : Controller) : List CallId :=
  (c.commands ++ c.calling).map Command.call ++ c.owner.pending

variable {trace : List OwnerEvent} {event : OwnerEvent} {waiting : List CallId} {call : CallId}

/-! ### Traces that grow -/

theorem answers_append (trace more : List OwnerEvent) :
    answers (trace ++ more) = answers trace ++ answers more :=
  List.filterMap_append

theorem calls_append (trace more : List OwnerEvent) : calls (trace ++ more) = calls trace ++ calls more :=
  List.filterMap_append

theorem exchange_append (trace more : List OwnerEvent) :
    exchange (trace ++ more) = more.foldl Exchange.add (exchange trace) :=
  List.foldl_append

theorem Balanced.not_answered (h : Balanced waiting trace) (hmem : call ∈ waiting) :
    call ∉ answers trace := by
  have hnodup : (waiting ++ answers trace).Nodup := h.perm.nodup_iff.mpr h.nodup
  exact fun hanswered => (List.nodup_append.mp hnodup).2.2 call hmem call hanswered rfl

theorem Balanced.rearrange {waiting' : List CallId} (h : Balanced waiting trace)
    (hperm : waiting'.Perm waiting) : Balanced waiting' trace :=
  ⟨(hperm.append_right _).trans h.perm, h.nodup⟩

/-- An event that makes no call and answers none. -/
theorem Balanced.quiet (h : Balanced waiting trace) (hcall : call? event = none)
    (hanswer : answer? event = none) : Balanced waiting (trace ++ [event]) := by
  have hcalls : calls (trace ++ [event]) = calls trace := by simp [calls, hcall]
  have hanswers : answers (trace ++ [event]) = answers trace := by simp [answers, hanswer]
  exact ⟨by rw [hcalls, hanswers]; exact h.perm, by rw [hcalls]; exact h.nodup⟩

/-- A call that was not made before. -/
theorem Balanced.called {command : Command} (h : Balanced waiting trace)
    (hnew : command.call ∉ calls trace) :
    Balanced (command.call :: waiting) (trace ++ [.called command]) := by
  have hcalls : calls (trace ++ [.called command]) = calls trace ++ [command.call] := by
    rw [calls_append]; rfl
  have hanswers : answers (trace ++ [.called command]) = answers trace := by
    rw [answers_append]; exact List.append_nil _
  refine ⟨?_, ?_⟩
  · rw [hcalls, hanswers, List.cons_append]
    exact (h.perm.cons command.call).trans (List.perm_append_singleton _ _).symm
  · rw [hcalls]
    exact (List.perm_append_singleton _ _).nodup_iff.mpr (List.nodup_cons.mpr ⟨hnew, h.nodup⟩)

/-- A waiting call is answered. -/
theorem Balanced.answer (h : Balanced (call :: waiting) trace) (hanswer : answer? event = some call)
    (hcall : call? event = none) : Balanced waiting (trace ++ [event]) := by
  have hcalls : calls (trace ++ [event]) = calls trace := by simp [calls, hcall]
  have hanswers : answers (trace ++ [event]) = answers trace ++ [call] := by
    simp [answers, hanswer]
  refine ⟨?_, by rw [hcalls]; exact h.nodup⟩
  rw [hcalls, hanswers, ← List.append_assoc]
  exact (List.perm_append_singleton _ _).trans h.perm

/-! ### Answers -/

theorem due_call {e : OwnerEvent} (h : Due trace e) :
    ∃ call, answer? e = some call ∧ call? e = none := by
  cases e with
  | answered call | closeAnswered call => exact ⟨call, rfl, rfl⟩
  | called | taken | heard | sent | closed | ended => exact h.elim

theorem exchange_of_answer (trace : List OwnerEvent) {e : OwnerEvent} (h : answer? e = some call) :
    exchange (trace ++ [e]) = exchange trace := by
  rw [exchange_append]
  cases e with
  | answered | closeAnswered => rfl
  | called | taken | heard | sent | closed | ended => cases h

theorem unsent_append (h : Unsent trace call) (hnot : ∀ incoming, event ≠ .sent call incoming) :
    Unsent (trace ++ [event]) call := by
  intro incoming hmem
  rcases List.mem_append.mp hmem with hold | hnew
  · exact h incoming hold
  · exact hnot incoming (List.mem_singleton.mp hnew).symm

theorem shut_append (h : Shut trace) (more : List OwnerEvent) : Shut (trace ++ more) :=
  h.imp (List.mem_append_left _) (List.mem_append_left _)

theorem Reason.after_answer {e : OwnerEvent} {other : CallId} {request : Request} {wantReply : Bool}
    {result : Except RelayError Bool} (h : Reason trace call request wantReply result)
    (he : answer? e = some other) : Reason (trace ++ [e]) call request wantReply result := by
  have hexchange := exchange_of_answer trace he
  have hunsent (hcall : Unsent trace call) : Unsent (trace ++ [e]) call := by
    refine unsent_append hcall fun incoming heq => ?_
    rw [heq] at he
    cases he
  cases h with
  | verdict hn haccepted => exact .verdict (by rw [hexchange]; exact hn) (by rw [hexchange]; exact haccepted)
  | noReply hsent => exact .noReply (List.mem_append_left _ hsent)
  | notForServer hkind hcall => exact .notForServer hkind (hunsent hcall)
  | shut hshut hcall => exact .shut (shut_append hshut _) (hunsent hcall)
  | hungUp hclose hn hlate =>
    exact .hungUp (List.mem_append_left _ hclose) (by rw [hexchange]; exact hn)
      (by rw [hexchange]; exact hlate)
  | failed htaken hcall => exact .failed (List.mem_append_left _ htaken) (hunsent hcall)
  | forsaken hended => exact .forsaken (List.mem_append_left _ hended)

theorem Due.after_answer {e e' : OwnerEvent} (h : Due trace e') (he : answer? e = some call) :
    Due (trace ++ [e]) e' := by
  cases e' with
  | answered =>
    obtain ⟨request, wantReply, hcalled, hreason⟩ := h
    exact ⟨request, wantReply, List.mem_append_left _ hcalled, hreason.after_answer he⟩
  | closeAnswered =>
    obtain ⟨hcalled, hshut, hresult⟩ := h
    exact ⟨List.mem_append_left _ hcalled, shut_append hshut _,
      hresult.imp_right fun ⟨reason, heq, htaken⟩ => ⟨reason, heq, List.mem_append_left _ htaken⟩⟩
  | called | taken | heard | sent | closed | ended => exact h.elim

theorem answers_answered (calls : List CallId) (result : Except RelayError Bool) :
    answers (calls.map fun call => .answered call result) = calls := by
  rw [answers, List.filterMap_map]
  exact List.filterMap_some

theorem answer?_forsaken (command : Command) : answer? (.forsaken command) = some command.call := by
  cases command <;> rfl

theorem answers_forsaken (commands : List Command) :
    answers (commands.map .forsaken) = commands.map Command.call := by
  have hsome : answer? ∘ .forsaken = some ∘ Command.call := funext answer?_forsaken
  rw [answers, List.filterMap_map, hsome]
  exact congrFun List.filterMap_eq_map commands

/-- The answers to calls that wait, one after the other. -/
theorem answer_all (events : List OwnerEvent) : ∀ {trace : List OwnerEvent},
    Throughout Lawful trace → Balanced (answers events ++ waiting) trace → (∀ e ∈ events, Due trace e) →
      Throughout Lawful (trace ++ events) ∧ Balanced waiting (trace ++ events) ∧
        exchange (trace ++ events) = exchange trace := by
  induction events with
  | nil =>
    intro trace hlaw hbalanced _
    rw [List.append_nil]
    exact ⟨hlaw, hbalanced, rfl⟩
  | cons e events ih =>
    intro trace hlaw hbalanced hdue
    have hfirst := hdue e List.mem_cons_self
    obtain ⟨call, hanswer, hcall⟩ := due_call hfirst
    have hanswers : answers (e :: events) = call :: answers events :=
      List.filterMap_cons_some hanswer
    rw [hanswers, List.cons_append] at hbalanced
    have hlawful : Lawful trace e := by
      have hnew := hbalanced.not_answered List.mem_cons_self
      cases e with
      | answered | closeAnswered =>
        cases hanswer
        exact ⟨hnew, hfirst⟩
      | called | taken | heard | sent | closed | ended => exact hfirst.elim
    obtain ⟨hlaw', hbalanced', hexchange⟩ := ih (hlaw.concat hlawful) (hbalanced.answer hanswer hcall)
      fun e' hmem => (hdue e' (List.mem_cons_of_mem _ hmem)).after_answer hanswer
    rw [List.append_assoc] at hlaw' hbalanced' hexchange
    exact ⟨hlaw', hbalanced', hexchange.trans (exchange_of_answer _ hanswer)⟩

/-! ### What the events say of the owner -/

/-- The verdicts that have come have answered the calls that were sent first. -/
structure Matched (trace : List OwnerEvent) : Prop where
  within : (exchange trace).verdicts.length ≤ (exchange trace).asked.length
  answered : ∀ {n : Nat} {call accepted}, (exchange trace).asked[n]? = some call →
    (exchange trace).verdicts[n]? = some accepted → .answered call (.ok accepted) ∈ trace

/-- What has happened is lawful and says whether the owner is closed and whether it has ended; these calls
wait. -/
structure Sound (waiting : List CallId) (trace : List OwnerEvent) (next : CallId) (o : Owner) : Prop where
  lawAbiding : Throughout Lawful trace
  balanced : Balanced waiting trace
  numbered : calls trace = List.range next
  matched : Matched trace
  remote : o.remoteClosed = true ↔ .heard .close ∈ trace
  shut : o.isClosed = true ↔ Shut trace
  ended : o.ended = true ↔ .ended ∈ trace

variable {next : CallId} {o o' : Owner}

/-- Events that say nothing of verdicts. -/
theorem Matched.append {more : List OwnerEvent} (h : Matched trace)
    (hexchange : exchange (trace ++ more) = exchange trace) : Matched (trace ++ more) := by
  refine ⟨by rw [hexchange]; exact h.within, fun hn haccepted => ?_⟩
  rw [hexchange] at hn haccepted
  exact List.mem_append_left _ (h.answered hn haccepted)

theorem mem_append_of_answers {events : List OwnerEvent} {e : OwnerEvent}
    (hevents : ∀ e ∈ events, (answer? e).isSome) (he : answer? e = none) :
    e ∈ trace ++ events ↔ e ∈ trace := by
  refine ⟨fun hmem => (List.mem_append.mp hmem).resolve_right fun hnew => ?_, List.mem_append_left _⟩
  have hsome := hevents e hnew
  rw [he] at hsome
  cases hsome

theorem calls_of_answers {events : List OwnerEvent} (hevents : ∀ e ∈ events, call? e = none) :
    calls (trace ++ events) = calls trace := by
  rw [calls_append, show calls events = [] from List.filterMap_eq_nil_iff.mpr hevents, List.append_nil]

namespace Sound

theorem rearrange {waiting' : List CallId} (h : Sound waiting trace next o)
    (hperm : waiting'.Perm waiting) : Sound waiting' trace next o :=
  { h with balanced := h.balanced.rearrange hperm }

theorem of_flags (h : Sound waiting trace next o) (hremote : o'.remoteClosed = o.remoteClosed)
    (hlocal : o'.localClosed = o.localClosed) (hended : o'.ended = o.ended) :
    Sound waiting trace next o' := by
  have hclosed : o'.isClosed = o.isClosed := by rw [Owner.isClosed, hremote, hlocal, Owner.isClosed]
  exact { h with
    remote := by rw [hremote]; exact h.remote
    shut := by rw [hclosed]; exact h.shut
    ended := by rw [hended]; exact h.ended }

/-- Calls that wait are answered. -/
theorem answer (events : List OwnerEvent) (h : Sound (answers events ++ waiting) trace next o)
    (hdue : ∀ e ∈ events, Due trace e) : Sound waiting (trace ++ events) next o := by
  obtain ⟨hlaw, hbalanced, hexchange⟩ := answer_all events h.lawAbiding h.balanced hdue
  have hanswers (e) (he : e ∈ events) : (answer? e).isSome ∧ call? e = none := by
    obtain ⟨call, hanswer, hcall⟩ := due_call (hdue e he)
    exact ⟨Option.isSome_of_mem hanswer, hcall⟩
  have hmem {e} (he : answer? e = none) : e ∈ trace ++ events ↔ e ∈ trace :=
    mem_append_of_answers (fun e he => (hanswers e he).1) he
  exact {
    lawAbiding := hlaw
    balanced := hbalanced
    numbered := (calls_of_answers fun e he => (hanswers e he).2).trans h.numbered
    matched := h.matched.append hexchange
    remote := h.remote.trans (hmem rfl).symm
    shut := h.shut.trans (or_congr (hmem rfl) (hmem rfl)).symm
    ended := h.ended.trans (hmem rfl).symm }

/-- Something happens that has nothing to do with calls and verdicts. -/
theorem quiet (h : Sound waiting trace next o) (hlawful : Lawful trace event)
    (hcall : call? event = none) (hanswer : answer? event = none)
    (hexchange : (exchange trace).add event = exchange trace)
    (hremote : o'.remoteClosed = true ↔ .heard .close ∈ trace ++ [event])
    (hshut : o'.isClosed = true ↔ Shut (trace ++ [event]))
    (hended : o'.ended = true ↔ .ended ∈ trace ++ [event]) :
    Sound waiting (trace ++ [event]) next o' where
  lawAbiding := h.lawAbiding.concat hlawful
  balanced := h.balanced.quiet hcall hanswer
  numbered := by rw [← h.numbered, calls_append]; simp [calls, hcall]
  matched := h.matched.append (by rw [exchange_append]; exact hexchange)
  remote := hremote
  shut := hshut
  ended := hended

/-- The owner takes a command, or hears something that is no verdict for a pending request. -/
theorem passes (h : Sound waiting trace next o) (hlawful : Lawful trace event)
    (hcall : call? event = none) (hanswer : answer? event = none)
    (hexchange : (exchange trace).add event = exchange trace) (hclosed : event ≠ .closed)
    (hheard : event ≠ .heard .close) (hended : event ≠ .ended) :
    Sound waiting (trace ++ [event]) next o := by
  have hmem {e : OwnerEvent} (hne : event ≠ e) : e ∈ trace ++ [event] ↔ e ∈ trace := by
    simp [hne.symm]
  exact h.quiet hlawful hcall hanswer hexchange (h.remote.trans (hmem hheard).symm)
    (h.shut.trans (or_congr (hmem hclosed) (hmem hheard)).symm) (h.ended.trans (hmem hended).symm)

theorem not_shut (h : Sound waiting trace next o) (hopen : o.isClosed = false) : ¬ Shut trace := by
  intro hshut
  rw [h.shut.mpr hshut] at hopen
  cases hopen

theorem not_ended (h : Sound waiting trace next o) (hthere : o.ended = false) : .ended ∉ trace := by
  intro hended
  rw [h.ended.mpr hended] at hthere
  cases hthere

theorem not_hung_up (h : Sound waiting trace next o) (hopen : o.remoteClosed = false) :
    .heard .close ∉ trace := by
  intro hclose
  rw [h.remote.mpr hclose] at hopen
  cases hopen

/-- The owner closes the channel. -/
theorem close (h : Sound waiting trace next o) (hopen : o.isClosed = false) :
    Sound waiting (trace ++ [.closed]) next { o with localClosed := true } := by
  refine h.quiet (h.not_shut hopen) rfl rfl rfl ?_ ?_ ?_
  · simpa using h.remote
  · simp [Owner.isClosed, Shut]
  · simpa using h.ended

/-- The host closes the channel. -/
theorem hangUp (h : Sound waiting trace next o) (hopen : o.remoteClosed = false)
    (hthere : o.ended = false) :
    Sound waiting (trace ++ [.heard .close]) next { o with remoteClosed := true } := by
  refine h.quiet ⟨h.not_hung_up hopen, h.not_ended hthere⟩ rfl rfl rfl ?_ ?_ ?_
  · simp
  · simp [Owner.isClosed, Shut]
  · simpa using h.ended

/-- The owner closes the channel if nobody has. -/
theorem closeAnyway (h : Sound waiting trace next o) :
    Sound waiting (trace ++ if o.isClosed then [] else [.closed]) next { o with localClosed := true } := by
  by_cases hclosed : o.isClosed = true
  · rw [if_pos hclosed, List.append_nil]
    exact { h with
      shut := ⟨fun _ => h.shut.mp hclosed, fun _ => Bool.or_true _⟩ }
  · rw [if_neg hclosed]
    exact h.close (Bool.eq_false_iff.mpr hclosed)

/-- The owner ends. -/
theorem finish (h : Sound waiting trace next o) :
    Sound waiting (trace ++ [.ended]) next { o with ended := true } := by
  refine h.quiet trivial rfl rfl rfl ?_ ?_ ?_
  · simpa using h.remote
  · simpa [Owner.isClosed, Shut] using h.shut
  · simp

/-- A request is put on the wire. -/
theorem send {incoming : Incoming} (h : Sound waiting trace next o)
    (hlawful : Lawful trace (.sent call incoming)) :
    Sound waiting (trace ++ [.sent call incoming]) next o := by
  refine {
    lawAbiding := h.lawAbiding.concat hlawful
    balanced := h.balanced.quiet rfl rfl
    numbered := by rw [← h.numbered, calls_append]; exact List.append_nil _
    matched := ?_
    remote := by simpa using h.remote
    shut := by simpa [Shut] using h.shut
    ended := by simpa using h.ended }
  rcases hasks : incoming.wantReply with _ | _
  · exact h.matched.append (by simp [exchange_append, Exchange.add, hasks])
  · have hexchange : exchange (trace ++ [.sent call incoming]) =
        { exchange trace with asked := (exchange trace).asked ++ [call] } := by
      simp [exchange_append, Exchange.add, hasks]
    refine ⟨?_, fun {n other accepted} hn haccepted => List.mem_append_left _ ?_⟩
    · rw [hexchange, List.length_append]
      exact Nat.le_add_right_of_le h.matched.within
    · rw [hexchange] at hn haccepted
      have hlt : n < (exchange trace).asked.length :=
        Nat.lt_of_lt_of_le (List.getElem?_eq_some_iff.mp haccepted).1 h.matched.within
      rw [List.getElem?_append_left hlt] at hn
      exact h.matched.answered hn haccepted

/-- A verdict comes for the call that has waited longest. -/
theorem verdict {m : HostMessage} {accepted : Bool}
    (h : Sound (call :: waiting) trace next o)
    (hm : m = .success ∧ accepted = true ∨ m = .failure ∧ accepted = false)
    (hopen : o.remoteClosed = false) (hthere : o.ended = false)
    (hasked : (exchange trace).asked[(exchange trace).verdicts.length]? = some call)
    (hcalled : ∃ request, .called (.request call request true) ∈ trace) :
    Sound waiting (trace ++ [.heard m, .answered call (.ok accepted)]) next o := by
  obtain ⟨request, hcalled⟩ := hcalled
  have hlt : (exchange trace).verdicts.length < (exchange trace).asked.length :=
    (List.getElem?_eq_some_iff.mp hasked).1
  have hne : m ≠ .close := by
    rcases hm with ⟨rfl, -⟩ | ⟨rfl, -⟩ <;> exact HostMessage.noConfusion
  have hexchange : exchange (trace ++ [.heard m]) =
      { exchange trace with verdicts := (exchange trace).verdicts ++ [accepted] } := by
    rw [exchange_append]
    rcases hm with ⟨rfl, rfl⟩ | ⟨rfl, rfl⟩ <;> exact if_pos hlt
  have hheard : Lawful trace (.heard m) := ⟨h.not_hung_up hopen, h.not_ended hthere⟩
  have hbalanced : Balanced (call :: waiting) (trace ++ [.heard m]) := h.balanced.quiet rfl rfl
  have hdue : Due (trace ++ [.heard m]) (.answered call (.ok accepted)) := by
    refine ⟨request, true, List.mem_append_left _ hcalled,
      .verdict (n := (exchange trace).verdicts.length) ?_ ?_⟩
    · rw [hexchange]
      exact hasked
    · rw [hexchange]
      exact List.getElem?_concat_length
  obtain ⟨hlaw', hbalanced', hexchange'⟩ := answer_all [.answered call (.ok accepted)]
    (h.lawAbiding.concat hheard) hbalanced fun e he => by rwa [List.mem_singleton.mp he]
  rw [List.append_assoc, List.singleton_append] at hlaw' hbalanced' hexchange'
  rw [hexchange] at hexchange'
  refine {
    lawAbiding := hlaw'
    balanced := hbalanced'
    numbered := by rw [← h.numbered, calls_append]; exact List.append_nil _
    matched := ⟨?_, fun {n other accepted'} hn haccepted => ?_⟩
    remote := by simpa [hne.symm] using h.remote
    shut := by simpa [Shut, hne.symm] using h.shut
    ended := by simpa using h.ended }
  · rw [hexchange', List.length_append]
    exact hlt
  · rw [hexchange'] at hn haccepted
    rcases Nat.lt_trichotomy n (exchange trace).verdicts.length with hold | rfl | hnew
    · rw [List.getElem?_append_left hold] at haccepted
      exact List.mem_append_left _ (h.matched.answered hn haccepted)
    · rw [List.getElem?_concat_length] at haccepted
      rw [hasked] at hn
      cases hn
      cases haccepted
      simp
    · rw [List.getElem?_eq_none (by simpa [Nat.succ_le_iff] using hnew)] at haccepted
      cases haccepted

end Sound

end Controller

end Gatehouse.Relay
