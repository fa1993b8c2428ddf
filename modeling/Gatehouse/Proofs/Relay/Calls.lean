import Gatehouse.Proofs.Relay.CallTrace
import Gatehouse.Proofs.Relay.ChannelStep
import Mathlib.Data.List.Nodup

/-!
# Calls to the owner of a host's channel

`calls_are_answered_in_turn`: however the calls of any number of callers fall in with what the host sends,
the `n`-th verdict that finds a request pending answers the call whose request was the `n`-th on the wire
that wants a reply. Every call gets one answer, for one of the reasons in `Reason`, and until then it waits
in a queue or for its verdict. The channel is closed once at most, not after the host has closed it, and in
the end it has been closed by one of the two; after that nothing is put on the wire.

Proof. A step appends a few events. That they are lawful, and that the calls that wait are those without an
answer, follows from what ties the owner to the events (`Kept`): it is closed if they say so, and the pending
calls are those on the wire for which no verdict has come (`Kept.inTurn`).
-/

namespace Gatehouse.Relay

namespace Owner

variable {o o' : Owner} {effects : List OwnerEffect}

/-- What the owner makes of a call for a request. -/
theorem obey_request {call : CallId} {request : Request} {wantReply : Bool}
    {sending : Except String Unit}
    (h : o.obey sending (.request call request wantReply) = (o', effects)) :
    (o' = o ∧ effects = [.answered call (.ok false)] ∧
      (o.isClosed = true ∨ request.isForServer = false)) ∨
    (∃ reason, sending = .error reason ∧ o' = o ∧
      effects = [.answered call (.error (.send .outbound reason))]) ∨
    o.isClosed = false ∧
      (((wantReply && request.wantsReply) = true ∧ o' = { o with pending := o.pending ++ [call] } ∧
        effects = [.sent request wantReply]) ∨
      ((wantReply && request.wantsReply) = false ∧ o' = o ∧
        effects = [.sent request wantReply, .answered call (.ok false)])) := by
  simp only [obey] at h
  by_cases hrefused : (o.isClosed || !request.isForServer) = true
  · rw [if_pos hrefused] at h
    cases h
    simp only [Bool.or_eq_true, Bool.not_eq_true'] at hrefused
    exact .inl ⟨rfl, rfl, hrefused⟩
  rw [if_neg hrefused] at h
  simp only [Bool.or_eq_true, not_or, Bool.not_eq_true] at hrefused
  rcases sending with reason | ⟨⟩
  · cases h
    exact .inr (.inl ⟨reason, rfl, rfl, rfl⟩)
  by_cases hasks : (wantReply && request.wantsReply) = true
  · dsimp only at h
    rw [if_pos hasks] at h
    cases h
    exact .inr (.inr ⟨hrefused.1, .inl ⟨hasks, rfl, rfl⟩⟩)
  · dsimp only at h
    rw [if_neg hasks] at h
    cases h
    exact .inr (.inr ⟨hrefused.1, .inr ⟨Bool.eq_false_iff.mpr hasks, rfl, rfl⟩⟩)

/-- What the owner makes of a call for closing. -/
theorem obey_close {call : CallId} {sending : Except String Unit}
    (h : o.obey sending (.close call) = (o', effects)) :
    (o.isClosed = true ∧ o' = o ∧ effects = [.closeAnswered call (.ok ())]) ∨
    (o.isClosed = false ∧ o' = { o with localClosed := true } ∧ ∃ result,
      effects = [.closed, .closeAnswered call result] ∧
        (result = .ok () ∨ ∃ reason, result = .error (.send .outbound reason) ∧ sending = .error reason)) := by
  simp only [obey] at h
  by_cases hclosed : o.isClosed = true
  · rw [if_pos hclosed] at h
    cases h
    exact .inl ⟨hclosed, rfl, rfl⟩
  · rw [if_neg hclosed] at h
    cases h
    refine .inr ⟨Bool.eq_false_iff.mpr hclosed, rfl, _, rfl, ?_⟩
    rcases sending with reason | ⟨⟩
    · exact .inr ⟨reason, rfl, rfl⟩
    · exact .inl rfl

end Owner

namespace Controller

variable {trace : List OwnerEvent} {event : OwnerEvent} {waiting : List CallId} {call : CallId}

/-! ### What the owner keeps -/

/-- The commands have been asked for, and nothing has been sent for them. -/
def Queued (trace : List OwnerEvent) (commands : List Command) : Prop :=
  ∀ command ∈ commands, .called command ∈ trace ∧ Unsent trace command.call

/-- The calls are for requests whose callers want a reply. -/
def Wanted (trace : List OwnerEvent) (calls : List CallId) : Prop :=
  ∀ call ∈ calls, ∃ request, .called (.request call request true) ∈ trace

/-- The pending calls are those on the wire for which no verdict has come, and nobody waits for an owner that
has ended. -/
structure Kept (c : Controller) : Prop where
  sound : Sound c.waiting c.trace c.nextCall c.owner
  queued : Queued c.trace (c.commands ++ c.calling)
  wanted : Wanted c.trace c.owner.pending
  inTurn : c.owner.remoteClosed = false → c.owner.ended = false →
    c.owner.pending = (exchange c.trace).asked.drop (exchange c.trace).verdicts.length
  emptied : c.owner.remoteClosed = true ∨ c.owner.ended = true → c.owner.pending = []
  settled : c.owner.ended = true → c.commands = [] ∧ c.calling = [] ∧ c.owner.isClosed = true

theorem Queued.append {commands : List Command} {more : List OwnerEvent} (h : Queued trace commands)
    (hmore : ∀ command ∈ commands, Unsent more command.call) : Queued (trace ++ more) commands := by
  intro command hmem
  obtain ⟨hcalled, hunsent⟩ := h command hmem
  refine ⟨List.mem_append_left _ hcalled, fun incoming hsent => ?_⟩
  exact (List.mem_append.mp hsent).elim (hunsent incoming) (hmore command hmem incoming)

theorem Wanted.append {calls : List CallId} (h : Wanted trace calls) (more : List OwnerEvent) :
    Wanted (trace ++ more) calls := fun call hmem =>
  (h call hmem).imp fun _ hcalled => List.mem_append_left _ hcalled

/-- A call that is put on the wire has been made. -/
theorem made_of_sent (hlaw : Throughout Lawful trace) {incoming : Incoming}
    (hmem : .sent call incoming ∈ trace) : call ∈ calls trace := by
  obtain ⟨before, after, rfl⟩ := List.append_of_mem hmem
  obtain ⟨-, -, -, wantReply, hcalled, -⟩ := hlaw before _ after rfl
  rw [calls_append]
  exact List.mem_append_left _ (List.mem_filterMap.mpr ⟨_, hcalled, rfl⟩)

/-- No two calls have the same number. -/
theorem called_unique {command command' : Command} (hcalls : (calls trace).Nodup)
    (hmem : .called command ∈ trace) (hmem' : .called command' ∈ trace)
    (hsame : command.call = command'.call) : command = command' := by
  have hmade {command : Command} {trace : List OwnerEvent} (hmem : .called command ∈ trace) :
      command.call ∈ calls trace := List.mem_filterMap.mpr ⟨_, hmem, rfl⟩
  induction trace with
  | nil => cases hmem
  | cons e trace ih =>
    rcases List.mem_cons.mp hmem with rfl | hold <;> rcases List.mem_cons.mp hmem' with hfirst | hold'
    · cases hfirst
      rfl
    · exact absurd (hsame ▸ hmade hold') (List.nodup_cons.mp hcalls).1
    · cases hfirst
      exact absurd (hsame ▸ hmade hold) (List.nodup_cons.mp hcalls).1
    · have hrest : (calls trace).Nodup := by
        cases hcall : call? e with
        | none => rwa [calls, List.filterMap_cons_none hcall] at hcalls
        | some call =>
          rw [calls, List.filterMap_cons_some hcall] at hcalls
          exact (List.nodup_cons.mp hcalls).2
      exact ih hrest hold hold'

/-- After one of the ends has closed the channel, nothing is sent, and the channel is not closed again. -/
theorem quiet_after_shut {before after : List OwnerEvent} (h : Throughout Lawful (before ++ after))
    (hshut : Shut before) : .closed ∉ after ∧ ∀ call incoming, .sent call incoming ∉ after := by
  constructor
  · intro hclosed
    obtain ⟨between, hnot⟩ := h.of_mem hclosed
    exact hnot (shut_append hshut between)
  · intro call incoming hsent
    obtain ⟨between, hnot, -⟩ := h.of_mem hsent
    exact hnot (shut_append hshut between)

variable {c c' : Controller}

namespace Kept

theorem start : Kept {} where
  sound := {
    lawAbiding := Throughout.nil
    balanced := ⟨.nil, .nil⟩
    numbered := rfl
    matched := ⟨Nat.le_refl _, nofun⟩
    remote := ⟨nofun, nofun⟩
    shut := ⟨nofun, fun h => h.elim nofun nofun⟩
    ended := ⟨nofun, nofun⟩ }
  queued := nofun
  wanted := nofun
  inTurn := fun _ _ => rfl
  emptied := fun _ => rfl
  settled := nofun

/-- What a reader does, and what the owner does for it. -/
theorem withDemux (h : Kept c) (demux : Demux) : Kept (c.withDemux demux) :=
  { h with sound := h.sound.of_flags rfl rfl rfl }

theorem enter {command : Command} (h : Kept c) (hmem : command ∈ c.calling) :
    Kept { c with calling := c.calling.erase command, commands := c.commands ++ [command] } := by
  have hperm : ((c.commands ++ [command]) ++ c.calling.erase command).Perm (c.commands ++ c.calling) := by
    rw [List.append_assoc]
    exact (List.perm_cons_erase hmem).symm.append_left _
  exact {
    sound := h.sound.rearrange ((hperm.map _).append_right _)
    queued := fun other hother => h.queued other (hperm.subset hother)
    wanted := h.wanted
    inTurn := h.inTurn
    emptied := h.emptied
    settled := fun hended => by
      rw [(h.settled hended).2.1] at hmem
      cases hmem }

/-- Somebody calls. -/
theorem newCall (h : Kept c) {command : Command} (hnumber : command.call = c.nextCall) :
    Kept (c.call command) := by
  have hnew : command.call ∉ calls c.trace := by
    rw [h.sound.numbered, hnumber]
    exact List.not_mem_range_self
  have hunsent : Unsent c.trace command.call := fun incoming hmem =>
    hnew (made_of_sent h.sound.lawAbiding hmem)
  have hcalled : Sound (command.call :: c.waiting) (c.trace ++ [.called command]) (c.nextCall + 1)
      c.owner := {
    lawAbiding := h.sound.lawAbiding.concat trivial
    balanced := h.sound.balanced.called hnew
    numbered := by
      rw [calls_append, h.sound.numbered, List.range_succ, ← hnumber]
      rfl
    matched := h.sound.matched.append (by rw [exchange_append]; rfl)
    remote := by simpa using h.sound.remote
    shut := by simpa [Shut] using h.sound.shut
    ended := by simpa using h.sound.ended }
  unfold Controller.call
  by_cases hended : c.owner.ended = true
  · obtain ⟨hcommands, hcalling, hclosed⟩ := h.settled hended
    have hforsaken : Due (c.trace ++ [.called command]) (.forsaken command) := by
      cases command with
      | request call request wantReply =>
        exact ⟨request, wantReply, by simp, .forsaken (hcalled.ended.mp hended)⟩
      | close call => exact ⟨by simp, hcalled.shut.mp hclosed, .inl rfl⟩
    rw [if_pos hended]
    refine {
      sound := ?_
      queued := ?_
      wanted := h.wanted.append _
      inTurn := fun _ hthere => absurd (hthere.symm.trans hended) Bool.false_ne_true
      emptied := h.emptied
      settled := h.settled }
    · have hanswers : answers [OwnerEvent.forsaken command] = [command.call] := answers_forsaken [command]
      have hwaiting : Sound (answers [OwnerEvent.forsaken command] ++ c.waiting)
          (c.trace ++ [.called command]) (c.nextCall + 1) c.owner := by
        rw [hanswers]
        exact hcalled
      have hanswered := hwaiting.answer _ fun e he => by rwa [List.mem_singleton.mp he]
      rw [List.append_assoc] at hanswered
      exact hanswered
    · rw [hcommands, hcalling]
      intro other hmem
      cases hmem
  · rw [if_neg hended]
    refine {
      sound := hcalled.rearrange ?_
      queued := ?_
      wanted := h.wanted.append _
      inTurn := fun hopen hthere => ?_
      emptied := h.emptied
      settled := fun hends => absurd hends hended }
    · have hwaiting : ((c.commands ++ (c.calling ++ [command])).map Command.call ++ c.owner.pending) =
          (c.commands ++ c.calling).map Command.call ++ command.call :: c.owner.pending := by simp
      exact (List.Perm.of_eq hwaiting).trans List.perm_middle
    · have hold : Queued (c.trace ++ [.called command]) (c.commands ++ c.calling) :=
        h.queued.append fun _ _ _ => by simp
      intro other hmem
      rw [← List.append_assoc] at hmem
      rcases List.mem_append.mp hmem with hother | hself
      · exact hold other hother
      · rw [List.mem_singleton.mp hself]
        exact ⟨by simp, unsent_append hunsent (by simp)⟩
    · rw [exchange_append]
      exact h.inTurn hopen hthere

/-- The call that the owner takes is not among the others that wait. -/
theorem waiting_eq {command : Command} {rest : List Command} (h : Kept c)
    (hcommands : c.commands = command :: rest) :
    c.waiting = command.call :: ((rest ++ c.calling).map Command.call ++ c.owner.pending) ∧
      ∀ other ∈ rest ++ c.calling, other.call ≠ command.call := by
  have hwaiting : c.waiting =
      command.call :: ((rest ++ c.calling).map Command.call ++ c.owner.pending) := by
    simp [Controller.waiting, hcommands]
  refine ⟨hwaiting, fun other hother heq => ?_⟩
  have hnodup : (c.waiting ++ answers c.trace).Nodup :=
    h.sound.balanced.perm.nodup_iff.mpr h.sound.balanced.nodup
  rw [hwaiting, List.cons_append, List.nodup_cons] at hnodup
  exact hnodup.1 (List.mem_append_left _
    (List.mem_append_left _ (List.mem_map.mpr ⟨other, hother, heq⟩)))

/-- The owner serves a call at once: a few things happen, and the call is answered. -/
theorem serve {command : Command} {rest : List Command} {o : Owner} (more : List OwnerEvent)
    (answer : OwnerEvent) (h : Kept c) (hcommands : c.commands = command :: rest)
    (hthere : c.owner.ended = false) (hpending : o.pending = c.owner.pending)
    (hremote : o.remoteClosed = c.owner.remoteClosed) (hended : o.ended = c.owner.ended)
    (hsound : Sound c.waiting (c.trace ++ more) c.nextCall o)
    (hexchange : exchange (c.trace ++ more) = exchange c.trace)
    (hmore : ∀ call ≠ command.call, Unsent more call)
    (hdue : Due (c.trace ++ more) answer) (hanswer : answer? answer = some command.call) :
    Kept { c with
      commands := rest, serving := command.call, owner := o, trace := c.trace ++ more ++ [answer] } := by
  obtain ⟨hwaiting, hothers⟩ := h.waiting_eq hcommands
  rw [hwaiting] at hsound
  have hanswers : answers [answer] = [command.call] := List.filterMap_cons_some hanswer
  have hqueued : Queued (c.trace ++ more) (rest ++ c.calling) := by
    have hold := h.queued
    rw [hcommands, List.cons_append] at hold
    exact Queued.append (fun other hother => hold other (List.mem_cons_of_mem _ hother))
      fun other hother => hmore other.call (hothers other hother)
  exact {
    sound := by
      refine Sound.answer [answer] ?_ fun e he => by rwa [List.mem_singleton.mp he]
      rw [hanswers]
      show Sound (command.call :: ((rest ++ c.calling).map Command.call ++ o.pending)) _ _ _
      rw [hpending]
      exact hsound
    queued := hqueued.append fun other _ incoming hmem => by
      rw [← List.mem_singleton.mp hmem] at hanswer
      cases hanswer
    wanted := by
      rw [hpending]
      exact (h.wanted.append _).append _
    inTurn := fun hopen _ => by
      rw [exchange_of_answer _ hanswer, hexchange, hpending]
      exact h.inTurn (hremote.symm.trans hopen) hthere
    emptied := fun hclosed => by
      rw [hpending]
      exact h.emptied (by rwa [hremote, hended] at hclosed)
    settled := fun hends => absurd (hthere.symm.trans (hended.symm.trans hends)) Bool.false_ne_true }

/-- The owner takes a command. -/
theorem taken (h : Kept c) (command : Command) (sending : Except String Unit) :
    Sound c.waiting (c.trace ++ [.taken command sending]) c.nextCall c.owner :=
  h.sound.passes trivial rfl rfl rfl nofun nofun nofun

/-- The owner puts a request on the wire, and its call waits for the verdict. -/
theorem ask {call : CallId} {request : Request} {rest : List Command} {more : List OwnerEvent}
    (h : Kept c) (hcommands : c.commands = .request call request true :: rest)
    (hthere : c.owner.ended = false) (hopen : c.owner.isClosed = false)
    (hsound : Sound c.waiting (c.trace ++ more) c.nextCall c.owner)
    (hexchange : exchange (c.trace ++ more) = exchange c.trace) (hmore : ∀ call, Unsent more call)
    (hlawful : Lawful (c.trace ++ more) (.sent call { request, wantReply := true })) :
    Kept { c with
      commands := rest
      serving := call
      owner := { c.owner with pending := c.owner.pending ++ [call] }
      trace := c.trace ++ more ++ [.sent call { request, wantReply := true }] } := by
  obtain ⟨hwaiting, hothers⟩ := h.waiting_eq hcommands
  have hold := h.queued
  rw [hcommands, List.cons_append] at hold
  have hremote : c.owner.remoteClosed = false := by
    rw [Owner.isClosed, Bool.or_eq_false_iff] at hopen
    exact hopen.1
  have hasked : exchange (c.trace ++ more ++ [.sent call { request, wantReply := true }]) =
      { exchange c.trace with asked := (exchange c.trace).asked ++ [call] } := by
    rw [exchange_append, hexchange]
    rfl
  refine {
    sound := ((hsound.send hlawful).rearrange ?_).of_flags rfl rfl rfl
    queued := ?_
    wanted := ?_
    inTurn := fun _ _ => ?_
    emptied := fun hclosed => ?_
    settled := fun hends => absurd (hthere.symm.trans hends) Bool.false_ne_true }
  · rw [hwaiting]
    have hlast : (rest ++ c.calling).map Command.call ++ (c.owner.pending ++ [call]) =
        ((rest ++ c.calling).map Command.call ++ c.owner.pending) ++ [call] := by simp
    exact (List.Perm.of_eq hlast).trans (List.perm_append_singleton _ _)
  · refine Queued.append (Queued.append (fun other hother => hold other (List.mem_cons_of_mem _ hother))
      fun other _ => hmore other.call) fun other hother incoming hmem => ?_
    have hsame := List.mem_singleton.mp hmem
    injection hsame with hcall
    exact hothers other hother hcall
  · intro other hother
    rcases List.mem_append.mp hother with hpending | hself
    · exact ((h.wanted.append _).append _) other hpending
    · rw [List.mem_singleton.mp hself]
      exact ⟨request, List.mem_append_left _ (List.mem_append_left _ (hold _ List.mem_cons_self).1)⟩
  · rw [hasked, List.drop_append_of_le_length h.sound.matched.within, ← h.inTurn hremote hthere]
  · rcases hclosed with hclosed | hended
    · exact absurd (hremote.symm.trans hclosed) Bool.false_ne_true
    · exact absurd (hthere.symm.trans hended) Bool.false_ne_true

/-- The owner takes a call for a request. -/
theorem obeyRequest {call : CallId} {request : Request} {wantReply : Bool} {rest : List Command}
    {sending : Except String Unit} {o : Owner} {effects : List OwnerEffect} (h : Kept c)
    (hcommands : c.commands = .request call request wantReply :: rest) (hthere : c.owner.ended = false)
    (hobey : c.owner.obey sending (.request call request wantReply) = (o, effects)) :
    Kept { c with
      commands := rest
      serving := call
      owner := o
      trace := c.trace ++ [.taken (.request call request wantReply) sending] ++
        effects.map (.ofEffect call) } := by
  have hhead := h.queued (.request call request wantReply) (by rw [hcommands]; exact List.mem_cons_self)
  obtain ⟨hcalled, hunsent⟩ := hhead
  have htaken := h.taken (.request call request wantReply) sending
  have hcalled' : .called (.request call request wantReply) ∈
      c.trace ++ [.taken (.request call request wantReply) sending] := List.mem_append_left _ hcalled
  have hunsent' : Unsent (c.trace ++ [.taken (.request call request wantReply) sending]) call :=
    unsent_append hunsent nofun
  have hsame : exchange (c.trace ++ [.taken (.request call request wantReply) sending]) =
      exchange c.trace := by rw [exchange_append]; rfl
  have hnone : ∀ other ≠ call, Unsent [.taken (.request call request wantReply) sending] other :=
    fun other _ incoming hmem => nomatch List.mem_singleton.mp hmem
  rcases Owner.obey_request hobey with ⟨rfl, rfl, hwhy⟩ | ⟨reason, rfl, rfl, rfl⟩ |
    ⟨hopen, ⟨hasks, rfl, rfl⟩ | ⟨hasks, rfl, rfl⟩⟩
  · refine h.serve _ _ hcommands hthere rfl rfl rfl htaken hsame hnone ?_ rfl
    refine ⟨request, wantReply, hcalled', ?_⟩
    rcases hwhy with hclosed | hkind
    · exact .shut (htaken.shut.mp hclosed) hunsent'
    · exact .notForServer hkind hunsent'
  · refine h.serve _ _ hcommands hthere rfl rfl rfl htaken hsame hnone ?_ rfl
    exact ⟨request, wantReply, hcalled', .failed (by simp) hunsent'⟩
  · obtain ⟨rfl, hkind⟩ := Bool.and_eq_true_iff.mp hasks
    have hasked := h.ask hcommands hthere hopen htaken hsame
      (fun _ incoming hmem => nomatch List.mem_singleton.mp hmem)
      ⟨htaken.not_shut hopen, htaken.not_ended hthere, hunsent', true, hcalled', hasks.symm⟩
    simpa [OwnerEvent.ofEffect, hkind] using hasked
  · have hlawful : Lawful (c.trace ++ [.taken (.request call request wantReply) sending])
        (.sent call { request, wantReply := false }) :=
      ⟨htaken.not_shut hopen, htaken.not_ended hthere, hunsent', wantReply, hcalled', hasks.symm⟩
    have hsent := htaken.send hlawful
    rw [List.append_assoc] at hsent
    have hserved := h.serve _ (.answered call (.ok false)) hcommands hthere rfl rfl rfl hsent
      (by rw [exchange_append]; rfl) (fun other hother incoming hmem => by simp_all)
      ⟨request, wantReply, List.mem_append_left _ hcalled, .noReply (by simp)⟩ rfl
    simpa [OwnerEvent.ofEffect, hasks] using hserved

/-- The owner takes a call for closing. -/
theorem obeyClose {call : CallId} {rest : List Command} {sending : Except String Unit} {o : Owner}
    {effects : List OwnerEffect} (h : Kept c) (hcommands : c.commands = .close call :: rest)
    (hthere : c.owner.ended = false) (hobey : c.owner.obey sending (.close call) = (o, effects)) :
    Kept { c with
      commands := rest
      serving := call
      owner := o
      trace := c.trace ++ [.taken (.close call) sending] ++ effects.map (.ofEffect call) } := by
  obtain ⟨hcalled, -⟩ := h.queued (.close call) (by rw [hcommands]; exact List.mem_cons_self)
  have htaken := h.taken (.close call) sending
  rcases Owner.obey_close hobey with ⟨hclosed, rfl, rfl⟩ | ⟨hopen, rfl, result, rfl, hresult⟩
  · refine h.serve _ _ hcommands hthere rfl rfl rfl htaken (by rw [exchange_append]; rfl)
      (fun other _ incoming hmem => by simp at hmem) ?_ rfl
    exact ⟨List.mem_append_left _ hcalled, htaken.shut.mp hclosed, .inl rfl⟩
  · have hclosing := htaken.close hopen
    rw [List.append_assoc] at hclosing
    have hdue : Due (c.trace ++ ([.taken (.close call) sending] ++ [.closed]))
        (.closeAnswered call result) := by
      refine ⟨List.mem_append_left _ hcalled, .inl (by simp), hresult.imp_right ?_⟩
      rintro ⟨reason, hreason, rfl⟩
      exact ⟨reason, hreason, by simp⟩
    have hserved := h.serve (o := { c.owner with localClosed := true }) _ _ hcommands hthere rfl rfl rfl
      hclosing (by rw [exchange_append]; rfl) (fun other _ incoming hmem => by simp at hmem) hdue rfl
    simpa [OwnerEvent.ofEffect] using hserved

/-- What the host says before it closes the channel. -/
theorem hear {m : HostMessage} (h : Kept c) (hm : m ≠ .close) (hopen : c.owner.remoteClosed = false)
    (hthere : c.owner.ended = false)
    (hexchange : (exchange c.trace).add (.heard m) = exchange c.trace) :
    Kept { c with trace := c.trace ++ [.heard m] } where
  sound := h.sound.passes ⟨h.sound.not_hung_up hopen, h.sound.not_ended hthere⟩ rfl rfl hexchange nofun
    (fun heq => hm (OwnerEvent.heard.inj heq)) nofun
  queued := h.queued.append fun _ _ _ => nofun
  wanted := h.wanted.append _
  inTurn := fun hopen hthere => by
    rw [exchange_append]
    exact (h.inTurn hopen hthere).trans (by rw [List.foldl_cons, hexchange]; rfl)
  emptied := h.emptied
  settled := h.settled

/-- The host gives its verdict. -/
theorem verdict {m : HostMessage} {accepted : Bool} {o : Owner} {effects : List OwnerEffect} (h : Kept c)
    (hm : m = .success ∧ accepted = true ∨ m = .failure ∧ accepted = false)
    (hopen : c.owner.remoteClosed = false) (hthere : c.owner.ended = false)
    (hverdict : c.owner.verdict accepted = (o, effects)) :
    Kept { c with
      owner := o
      trace := c.trace ++ [.heard m] ++ effects.map (.ofEffect c.serving) } := by
  have hadd : (exchange c.trace).add (.heard m) = (exchange c.trace).hear accepted := by
    rcases hm with ⟨rfl, rfl⟩ | ⟨rfl, rfl⟩ <;> rfl
  have hne : m ≠ .close := by
    rcases hm with ⟨rfl, -⟩ | ⟨rfl, -⟩ <;> exact HostMessage.noConfusion
  have hturn := h.inTurn hopen hthere
  rcases hpending : c.owner.pending with _ | ⟨call, rest⟩
  · rw [Owner.verdict, hpending] at hverdict
    cases hverdict
    rw [hpending] at hturn
    have hnone : (exchange c.trace).hear accepted = exchange c.trace :=
      if_neg (Nat.not_lt.mpr (List.drop_eq_nil_iff.mp hturn.symm))
    simpa using h.hear hne hopen hthere (hadd.trans hnone)
  · rw [Owner.verdict, hpending] at hverdict
    cases hverdict
    rw [hpending] at hturn
    have hasked : (exchange c.trace).asked[(exchange c.trace).verdicts.length]? = some call := by
      rw [← Nat.add_zero (exchange c.trace).verdicts.length, ← List.getElem?_drop, ← hturn]
      rfl
    have hwaiting : c.waiting = (c.commands ++ c.calling).map Command.call ++ call :: rest := by
      rw [Controller.waiting, hpending]
    have hheard : exchange (c.trace ++ [.heard m, .answered call (.ok accepted)]) =
        { exchange c.trace with verdicts := (exchange c.trace).verdicts ++ [accepted] } := by
      rw [exchange_append, List.foldl_cons, hadd]
      exact if_pos (List.getElem?_eq_some_iff.mp hasked).1
    have hwanted := h.wanted
    rw [hpending] at hwanted
    have hsound := Sound.verdict (h.sound.rearrange (by rw [hwaiting]; exact List.perm_middle.symm)) hm
      hopen hthere hasked (hwanted call List.mem_cons_self)
    simp only [List.map_cons, List.map_nil, OwnerEvent.ofEffect, List.append_assoc, List.singleton_append]
    exact {
      sound := hsound.of_flags rfl rfl rfl
      queued := h.queued.append fun _ _ _ => by simp
      wanted := Wanted.append (fun other hother => hwanted other (List.mem_cons_of_mem _ hother)) _
      inTurn := fun _ _ => by
        rw [hheard, List.length_append, List.length_singleton, ← List.tail_drop, ← hturn]
        rfl
      emptied := fun hclosed => by
        rcases hclosed with hclosed | hended
        · exact absurd (hopen.symm.trans hclosed) Bool.false_ne_true
        · exact absurd (hthere.symm.trans hended) Bool.false_ne_true
      settled := h.settled }

/-- The host closes the channel, and nobody waits for a verdict any more. -/
theorem hangUp (h : Kept c) (hopen : c.owner.remoteClosed = false) (hthere : c.owner.ended = false) :
    Kept { c with
      owner := { c.owner with remoteClosed := true, demux := c.owner.demux.endAll, pending := [] }
      trace := c.trace ++ [.heard .close] ++ c.owner.pending.map fun call => .answered call (.ok false) } := by
  have hclosed := h.sound.hangUp hopen hthere
  have hsame : exchange (c.trace ++ [.heard .close]) = exchange c.trace := by
    rw [exchange_append]
    rfl
  have hdue : ∀ e ∈ c.owner.pending.map fun call => .answered call (.ok false),
      Due (c.trace ++ [.heard .close]) e := by
    intro e he
    obtain ⟨call, hcall, rfl⟩ := List.mem_map.mp he
    obtain ⟨request, hcalled⟩ := h.wanted call hcall
    rw [h.inTurn hopen hthere] at hcall
    obtain ⟨n, hn⟩ := List.mem_iff_getElem?.mp hcall
    rw [List.getElem?_drop] at hn
    refine ⟨request, true, List.mem_append_left _ hcalled,
      .hungUp (n := (exchange c.trace).verdicts.length + n) (by simp) ?_ ?_⟩
    · rw [hsame]
      exact hn
    · rw [hsame]
      exact Nat.le_add_right _ _
  have hsound : Sound ((c.commands ++ c.calling).map Command.call) _ c.nextCall _ :=
    Sound.answer (c.owner.pending.map fun call => .answered call (.ok false))
      (hclosed.rearrange (by rw [answers_answered]; exact List.perm_append_comm)) hdue
  exact {
    sound := by
      simp only [Controller.waiting, List.append_nil]
      exact hsound.of_flags rfl rfl rfl
    queued := (h.queued.append fun _ _ _ => by simp).append fun _ _ _ => by simp
    wanted := nofun
    inTurn := nofun
    emptied := fun _ => rfl
    settled := fun hended => absurd (hthere.symm.trans hended) Bool.false_ne_true }

/-- The owner ends, and nobody waits any more. -/
theorem finish {o : Owner} {effects : List OwnerEffect} (h : Kept c)
    (hstep : c.owner.step? .finish = some (o, effects)) :
    Kept (Controller.forsake { c with
      owner := o
      trace := c.trace ++ [.ended] ++ effects.map (.ofEffect c.serving) }) := by
  obtain ⟨hthere, rfl, rfl⟩ := Owner.step?_finish hstep
  have hclosed := h.sound.finish.closeAnyway
  let before := c.trace ++ [.ended] ++ if c.owner.isClosed then [] else [.closed]
  let refused := c.owner.pending.map fun call => OwnerEvent.answered call (.error (.closed .outbound))
  let forsaken := (c.commands ++ c.calling).map OwnerEvent.forsaken
  have hended : .ended ∈ before := hclosed.ended.mp rfl
  have hshut : Shut before := hclosed.shut.mp (Bool.or_true _)
  have hdue : ∀ e ∈ refused ++ forsaken, Due before e := by
    have hcalled {command : Command} (hmem : .called command ∈ c.trace) : .called command ∈ before :=
      List.mem_append_left _ (List.mem_append_left _ hmem)
    intro e he
    rcases List.mem_append.mp he with hrefused | hforsaken
    · obtain ⟨call, hcall, rfl⟩ := List.mem_map.mp hrefused
      obtain ⟨request, hmem⟩ := h.wanted call hcall
      exact ⟨request, true, hcalled hmem, .forsaken hended⟩
    · obtain ⟨command, hcommand, rfl⟩ := List.mem_map.mp hforsaken
      have hmem := (h.queued command hcommand).1
      cases command with
      | request call request wantReply => exact ⟨request, wantReply, hcalled hmem, .forsaken hended⟩
      | close call => exact ⟨hcalled hmem, hshut, .inl rfl⟩
  have hwaiting : (answers (refused ++ forsaken) ++ []).Perm c.waiting := by
    rw [List.append_nil, answers_append, answers_answered, answers_forsaken]
    exact List.perm_append_comm
  have hsound := Sound.answer _ (hclosed.rearrange hwaiting) hdue
  have htrace : before ++ (refused ++ forsaken) = c.trace ++ [.ended] ++
      ((if c.owner.isClosed then [] else [OwnerEffect.closed]) ++ c.owner.pending.map fun call =>
        OwnerEffect.answered call (.error (.closed .outbound))).map (.ofEffect c.serving) ++
      (c.commands ++ c.calling).map .forsaken := by
    unfold before refused forsaken
    split_ifs <;> simp [OwnerEvent.ofEffect, Function.comp_def]
  have hends : Sound [] (before ++ (refused ++ forsaken)) c.nextCall
      { c.owner with ended := true, localClosed := true, demux := c.owner.demux.endAll, pending := [] } :=
    hsound.of_flags rfl rfl rfl
  rw [htrace] at hends
  exact {
    sound := hends
    queued := nofun
    wanted := nofun
    inTurn := nofun
    emptied := fun _ => rfl
    settled := fun _ => ⟨rfl, rfl, Bool.or_true _⟩ }

/-- A step of the owner or of its callers. -/
theorem step {action : ControllerAction} (h : Kept c) (hstep : c.step? action = some c') : Kept c' := by
  cases action with
  | request request wantReply =>
    cases hstep
    exact h.newCall rfl
  | close =>
    cases hstep
    exact h.newCall rfl
  | enter command =>
    simp only [step?] at hstep
    split_ifs at hstep with hroom
    cases hstep
    exact h.enter hroom.1
  | release =>
    obtain ⟨⟨o, effects⟩, hown, hc'⟩ := Option.bind_eq_some_iff.mp hstep
    obtain ⟨-, -, -, rfl, rfl⟩ := Owner.step?_release hown
    cases hc'
    simpa [Controller.withDemux] using h.withDemux c.owner.demux.release
  | read m =>
    obtain ⟨⟨o, effects⟩, hown, hc'⟩ := Option.bind_eq_some_iff.mp hstep
    obtain ⟨hthere, hopen, -, hreceive⟩ := Owner.step?_message hown
    cases hc'
    cases m with
    | success => exact h.verdict (.inl ⟨rfl, rfl⟩) hopen hthere hreceive
    | failure => exact h.verdict (.inr ⟨rfl, rfl⟩) hopen hthere hreceive
    | close =>
      cases hreceive
      simpa [OwnerEvent.ofEffect, Function.comp_def] using h.hangUp hopen hthere
    | data | eof | exitStatus | exitSignal =>
      cases hreceive
      simpa [Controller.withDemux] using (h.hear HostMessage.noConfusion hopen hthere rfl).withDemux _
    | other =>
      cases hreceive
      simpa using h.hear HostMessage.noConfusion hopen hthere rfl
  | obey sending =>
    simp only [step?] at hstep
    rcases hcommands : c.commands with _ | ⟨command, rest⟩
    · rw [hcommands] at hstep
      cases hstep
    · rw [hcommands] at hstep
      obtain ⟨⟨o, effects⟩, hown, hc'⟩ := Option.bind_eq_some_iff.mp hstep
      obtain ⟨hthere, hobey⟩ := Owner.step?_command hown
      cases hc'
      cases command with
      | request call request wantReply => exact h.obeyRequest hcommands hthere hobey
      | close call => exact h.obeyClose hcommands hthere hobey
  | finish =>
    obtain ⟨c₁, hown, hc'⟩ := Option.bind_eq_some_iff.mp hstep
    obtain ⟨⟨o, effects⟩, hfinish, hc₁⟩ := Option.bind_eq_some_iff.mp hown
    cases hc₁
    cases hc'
    exact h.finish hfinish
  | takeData | takeRequest | leaveData | leaveRequests =>
    cases hstep
    exact h.withDemux _

theorem run {actions : List ControllerAction} : ∀ {c : Controller},
    Kept c → c.run? actions = some c' → Kept c' := by
  induction actions with
  | nil =>
    intro c h hrun
    cases hrun
    exact h
  | cons action actions ih =>
    intro c h hrun
    obtain ⟨c₁, hstep, hrest⟩ := Option.bind_eq_some_iff.mp hrun
    exact ih (h.step hstep) hrest

end Kept

/-! ### The protocol -/

/-- The call waits for room, for the owner to take its command, or for a verdict on its request, which was
the `n`-th on the wire; so far fewer verdicts have come. -/
def Waits (c : Controller) (call : CallId) : Prop :=
  (∃ command ∈ c.commands ++ c.calling, command.call = call) ∨
    ∃ n, (exchange c.trace).asked[n]? = some call ∧ (exchange c.trace).verdicts.length ≤ n

theorem Kept.waits (h : Kept c) (hmem : call ∈ c.waiting) : c.Waits call ∧ .ended ∉ c.trace := by
  have hthere : c.owner.ended = false := by
    rcases hended : c.owner.ended with _ | _
    · rfl
    · obtain ⟨hcommands, hcalling, -⟩ := h.settled hended
      rw [Controller.waiting, hcommands, hcalling, h.emptied (.inr hended)] at hmem
      cases hmem
  refine ⟨?_, h.sound.not_ended hthere⟩
  rcases List.mem_append.mp hmem with hcommand | hpending
  · obtain ⟨command, hcommand, heq⟩ := List.mem_map.mp hcommand
    exact .inl ⟨command, hcommand, heq⟩
  · right
    have hopen : c.owner.remoteClosed = false := by
      rcases hremote : c.owner.remoteClosed with _ | _
      · rfl
      · rw [h.emptied (.inl hremote)] at hpending
        cases hpending
    rw [h.inTurn hopen hthere] at hpending
    obtain ⟨n, hn⟩ := List.mem_iff_getElem?.mp hpending
    rw [List.getElem?_drop] at hn
    exact ⟨_, hn, Nat.le_add_right _ _⟩

/-- A call for a request is answered with a result. -/
theorem Kept.result {request : Request} {wantReply : Bool} (h : Kept c)
    (hcalled : .called (.request call request wantReply) ∈ c.trace) (hanswered : call ∈ answers c.trace) :
    ∃ result, .answered call result ∈ c.trace := by
  obtain ⟨e, hmem, hcall⟩ := List.mem_filterMap.mp hanswered
  cases e with
  | answered call' result =>
    cases hcall
    exact ⟨result, hmem⟩
  | closeAnswered call' result =>
    cases hcall
    obtain ⟨before, after, htrace⟩ := List.append_of_mem hmem
    obtain ⟨-, hclose, -⟩ := h.sound.lawAbiding before _ after htrace
    have hclose' : .called (.close call) ∈ c.trace := htrace ▸ List.mem_append_left _ hclose
    cases called_unique h.sound.balanced.nodup hcalled hclose' rfl
  | called | taken | heard | sent | closed | ended => cases hcall

/-- However many callers there are and however their calls fall in with what the host sends: each thing that
happens is lawful after what has happened before, so every answer has its reason. The `n`-th verdict that
finds a request pending answers the call whose request was the `n`-th on the wire that wants a reply. A call
is answered once, and waits before that while the owner is there. Once one of the ends has closed the channel
it is not closed again and nothing is sent; and when the owner has ended, one of the ends has closed it. -/
theorem calls_are_answered_in_turn {actions : List ControllerAction} {c : Controller}
    (h : Controller.run? {} actions = some c) :
    let x := exchange c.trace
    Throughout Lawful c.trace ∧
      (x.verdicts.length ≤ x.asked.length ∧ ∀ (n : Nat) call accepted, x.asked[n]? = some call →
        x.verdicts[n]? = some accepted → .answered call (.ok accepted) ∈ c.trace) ∧
      (∀ command, .called command ∈ c.trace →
        (answers c.trace).count command.call = 1 ∨
          (answers c.trace).count command.call = 0 ∧ c.Waits command.call ∧ .ended ∉ c.trace) ∧
      (∀ call request wantReply, .called (.request call request wantReply) ∈ c.trace →
        call ∈ answers c.trace → ∃ result, .answered call result ∈ c.trace) ∧
      (∀ before after, c.trace = before ++ after → Shut before →
        .closed ∉ after ∧ ∀ call incoming, .sent call incoming ∉ after) ∧
      (.ended ∈ c.trace → Shut c.trace) := by
  intro x
  have hkept : Kept c := Kept.start.run h
  have hbalanced := hkept.sound.balanced
  refine ⟨hkept.sound.lawAbiding, ⟨hkept.sound.matched.within, fun n call accepted hn haccepted =>
    hkept.sound.matched.answered hn haccepted⟩, fun command hcalled => ?_,
    fun call request wantReply hcalled hanswered => hkept.result hcalled hanswered,
    fun before after htrace hshut => ?_, fun hended => ?_⟩
  · have hmade : command.call ∈ calls c.trace := List.mem_filterMap.mpr ⟨_, hcalled, rfl⟩
    have honce : (answers c.trace).Nodup :=
      (List.nodup_append.mp (hbalanced.perm.nodup_iff.mpr hbalanced.nodup)).2.1
    rcases List.mem_append.mp (hbalanced.perm.symm.subset hmade) with hwaits | hanswered
    · exact .inr ⟨List.count_eq_zero.mpr (hbalanced.not_answered hwaits), hkept.waits hwaits⟩
    · exact .inl (List.count_eq_one_of_mem honce hanswered)
  · exact quiet_after_shut (htrace ▸ hkept.sound.lawAbiding) hshut
  · exact hkept.sound.shut.mp (hkept.settled (hkept.sound.ended.mpr hended)).2.2

/-- Two callers; the command of the second enters the queue first, and so gets the first verdict. Then the
channel is closed, and the owner ends. -/
theorem second_caller_is_answered_first :
    let actions : List ControllerAction := [
      .request .shell true, .request .shell true,
      .enter (.request 1 .shell true), .enter (.request 0 .shell true),
      .obey (.ok ()), .obey (.ok ()), .read .success, .close, .enter (.close 2), .read .failure,
      .obey (.ok ()), .finish]
    ∃ c, Controller.run? {} actions = some c ∧
      exchange c.trace = { asked := [1, 0], verdicts := [true, false] } ∧
      .answered 1 (.ok true) ∈ c.trace ∧ .answered 0 (.ok false) ∈ c.trace ∧ Shut c.trace := by
  intro actions
  obtain ⟨c, hrun⟩ : ∃ c, Controller.run? {} actions = some c := Option.isSome_iff_exists.mp rfl
  have hexchange : exchange c.trace = { asked := [1, 0], verdicts := [true, false] } := by
    have hmap : (Controller.run? {} actions).map (fun c => exchange c.trace) =
        some { asked := [1, 0], verdicts := [true, false] } := rfl
    rw [hrun] at hmap
    exact Option.some.inj hmap
  have hended : .ended ∈ c.trace := by
    have hlast : (Controller.run? {} actions).bind (fun c => c.trace.getLast?) = some .ended := rfl
    rw [hrun] at hlast
    exact List.mem_of_getLast? hlast
  obtain ⟨-, ⟨-, hmatched⟩, -, -, -, hshut⟩ := calls_are_answered_in_turn hrun
  rw [hexchange] at hmatched
  exact ⟨c, hrun, hexchange, hmatched 0 1 true rfl rfl, hmatched 1 0 false rfl rfl, hshut hended⟩

end Controller

end Gatehouse.Relay
