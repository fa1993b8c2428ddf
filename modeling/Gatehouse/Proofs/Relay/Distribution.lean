import Gatehouse.Proofs.Relay.DataWay
import Gatehouse.Proofs.Relay.ExitWay
import Gatehouse.Relay.Distribution
import Mathlib.Data.List.TakeWhile

/-!
# Nothing is lost or reordered on the way through the queues

`distribution_keeps_order`: whatever the host sends, and however the steps of the owner and of the two
readers fall in with one another, what was read from a queue, what is in it and what is held for it is what
the host has sent for it before it ended, in this order, as long as somebody reads the queue. There is
always room for a held message by the time the owner puts it into its queue, a queue does not end while a
message is held, and a queue that nobody reads holds nothing up.

Proof. The two queues do not differ in this, so both are a `Outlet`: a queue and the message that is held for
it. `Outlet.Holds` says what was sent for it, and is kept by the few things that can happen to it. Of a host's
message each outlet hears that it is one for its queue, that it ends the queue, or neither (`Outlet.hear`), and a
release concerns the outlet whose message is held. That there is room is kept by the readers
(`Distribution.Holds`), who can only make more of it.
-/

namespace Gatehouse.Relay

/-! ### What a host sends for a queue -/

/-- The block of data in a message. -/
def HostMessage.chunk? (message : HostMessage) : Option Chunk :=
  message.data?.join

/-- The data queue ends with this message. -/
def HostMessage.endsData (message : HostMessage) : Bool :=
  message.data? == some none

/-- The request in a message. -/
def HostMessage.incoming? (message : HostMessage) : Option Incoming :=
  message.exit?.map .ofRequest

/-- The request queue ends with this message. -/
def HostMessage.endsRequests (message : HostMessage) : Bool :=
  message == .close

section

variable {α : Type} {ends : HostMessage → Bool} {item? : HostMessage → Option α} {heard : List HostMessage}
  {message : HostMessage}

/-- What is sent for a queue before it ends. -/
def sentBefore (ends : HostMessage → Bool) (item? : HostMessage → Option α) (heard : List HostMessage) :
    List α :=
  (heard.takeWhile fun message => !ends message).filterMap item?

/-- A message that ends the queue has been heard. -/
def HasEnded (ends : HostMessage → Bool) (heard : List HostMessage) : Prop :=
  ∃ message ∈ heard, ends message = true

theorem hasEnded_snoc :
    HasEnded ends (heard ++ [message]) ↔ HasEnded ends heard ∨ ends message = true := by
  simp [HasEnded, or_and_right, exists_or]

/-- What is sent after the end does not count. -/
theorem sentBefore_of_hasEnded (h : HasEnded ends heard) (more : List HostMessage) :
    sentBefore ends item? (heard ++ more) = sentBefore ends item? heard := by
  obtain ⟨last, hmem, hlast⟩ := h
  have hcut : (heard ++ more).takeWhile (fun message => !ends message) =
      heard.takeWhile fun message => !ends message := by
    obtain ⟨front, back, rfl⟩ := List.append_of_mem hmem
    simp [List.takeWhile_append, hlast]
  rw [sentBefore, hcut, sentBefore]

theorem sentBefore_snoc (h : ¬ HasEnded ends heard) : sentBefore ends item? (heard ++ [message]) =
    sentBefore ends item? heard ++ if ends message then [] else (item? message).toList := by
  have hall : ∀ earlier ∈ heard, (!ends earlier) = true := fun earlier hmem => by
    rw [Bool.not_eq_true']
    exact eq_false_of_ne_true fun hends => h ⟨earlier, hmem, hends⟩
  rw [sentBefore, List.takeWhile_append_of_pos hall, List.filterMap_append, sentBefore,
    List.takeWhile_eq_self_iff.mpr hall, List.takeWhile_cons]
  refine congrArg (heard.filterMap item? ++ ·) ?_
  cases ends message with
  | true => rfl
  | false => cases hitem : item? message <;> simp [hitem]

end

namespace Queue

variable {α : Type} {q q' : Queue α}

/-! ### Room -/

theorem push_of_hasRoom (h : q.hasRoom = true) (a : α) : (q.push a).2 = none := by
  unfold push
  simp only [hasRoom, Bool.or_eq_true, Bool.not_eq_true', decide_eq_true_eq] at h
  split_ifs with hfed hread hroom
  · rfl
  · rfl
  · rfl
  · simp_all

theorem take_depth {taken : Taken α} (h : q.take = (q', taken)) : q'.depth = q.depth := by
  unfold take at h
  split at h <;> cases h <;> rfl

/-- Who takes from a queue makes room. -/
theorem hasRoom_take {taken : Taken α} (h : q.hasRoom = true) (htake : q.take = (q', taken)) :
    q'.hasRoom = true := by
  obtain ⟨hfed, hread⟩ := take_keeps htake
  have hfewer : q'.items.length ≤ q.items.length := by
    unfold take at htake
    split at htake
    · next hitems =>
      cases htake
      exact hitems ▸ Nat.le_succ _
    · cases htake
      exact Nat.le_refl _
  simp only [hasRoom, Bool.or_eq_true, Bool.not_eq_true', decide_eq_true_eq] at h ⊢
  rw [hfed, hread, take_depth htake]
  exact h.imp_right (Nat.lt_of_le_of_lt hfewer)

theorem hasRoom_of_gone (h : q.read = false) : q.hasRoom = true := by
  simp [hasRoom, h]

theorem push_read (q : Queue α) (a : α) : (q.push a).1.read = q.read := by
  rcases q.push_cases a with ⟨-, hpush⟩ | ⟨-, -, hpush⟩ | ⟨-, -, hpush | hpush⟩ <;> rw [hpush]

end Queue

/-! ### A queue and what is held for it -/

/-- One of the ways to a reader: a queue, and the message that is held for it. -/
structure Outlet (α : Type) where
  queue : Queue α
  held : Option α

namespace Outlet

variable {α : Type} {w : Outlet α} {sent sent' taken : List α} {ended : Prop} {a : α}

/-- A message is put into the queue, or held if it does not fit. -/
def push (w : Outlet α) (a : α) : Outlet α where
  queue := (w.queue.push a).1
  held := (w.queue.push a).2

/-- A message is heard, which is for this queue, or ends it, or neither. -/
def hear (w : Outlet α) (item : Option α) (ends : Bool) : Outlet α :=
  match item with
  | some a => w.push a
  | none => if ends then { queue := w.queue.finish, held := none } else w

/-- As long as somebody reads the queue, all that was sent before its end was taken, is in the queue, or is
held, in this order. Nothing is held for a queue that has ended, and a queue that is read ends only then. -/
structure Holds (w : Outlet α) (sent : List α) (ended : Prop) (taken : List α) : Prop where
  whole : w.queue.read = true → taken ++ w.queue.items ++ w.held.toList = sent
  shut : ended → w.queue.fed = false ∧ w.held = none
  ended : w.queue.read = true → w.queue.fed = false → ended

/-- A queue that is open on both sides keeps a message behind what is in it, or leaves it to be held. -/
theorem push_of_open (hread : w.queue.read = true) (hfed : w.queue.fed = true) (a : α) :
    (w.push a).queue.items ++ (w.push a).held.toList = w.queue.items ++ [a] ∧
      (w.push a).queue.fed = true := by
  unfold push
  rcases w.queue.push_cases a with ⟨hno, -⟩ | ⟨-, hno, -⟩ | ⟨-, -, hpush | hpush⟩
  · exact absurd (hno.symm.trans hfed) nofun
  · exact absurd (hno.symm.trans hread) nofun
  · rw [hpush]
    exact ⟨List.append_nil _, hfed⟩
  · rw [hpush]
    exact ⟨rfl, hfed⟩

/-- A message is put behind those that were sent before it. -/
theorem Holds.accept (h : w.Holds sent ended taken) (hopen : ¬ ended)
    (hnext : w.queue.read = true → taken ++ w.queue.items ++ [a] = sent') :
    (w.push a).Holds sent' ended taken := by
  have hkept (hread : (w.push a).queue.read = true) :
      w.queue.read = true ∧ w.queue.fed = true := by
    have hread' : w.queue.read = true := (w.queue.push_read a).symm.trans hread
    exact ⟨hread', Bool.of_not_eq_false fun hfed => hopen (h.ended hread' hfed)⟩
  refine ⟨fun hread => ?_, fun hended => absurd hended hopen, fun hread hunfed => ?_⟩
  · obtain ⟨hread', hfed⟩ := hkept hread
    rw [List.append_assoc, (push_of_open hread' hfed a).1, ← List.append_assoc]
    exact hnext hread'
  · obtain ⟨hread', hfed⟩ := hkept hread
    exact absurd (hunfed.symm.trans (push_of_open hread' hfed a).2) nofun

/-- A held message is put into the queue after all, or stays held. -/
theorem Holds.release (h : w.Holds sent ended taken) (hheld : w.held = some a) :
    (w.push a).Holds sent ended taken := by
  refine h.accept (fun hended => ?_) fun hread => ?_
  · exact absurd (hheld.symm.trans (h.shut hended).2) nofun
  · have hwhole := h.whole hread
    rwa [hheld] at hwhole

theorem Holds.take (h : w.Holds sent ended taken) {queue : Queue α}
    (htake : w.queue.take = (queue, .item a)) : { w with queue }.Holds sent ended (taken ++ [a]) := by
  obtain ⟨hfed, hread⟩ := Queue.take_keeps htake
  refine ⟨fun hread' => ?_, fun hended => ⟨hfed.trans (h.shut hended).1, (h.shut hended).2⟩,
    fun hread' hunfed => h.ended (hread.symm.trans hread') (hfed.symm.trans hunfed)⟩
  have hwhole := h.whole (hread.symm.trans hread')
  rw [Queue.take_item htake] at hwhole
  rw [← hwhole]
  simp

theorem Holds.abandon (h : w.Holds sent ended taken) :
    { w with queue := w.queue.abandon }.Holds sent ended taken :=
  ⟨nofun, h.shut, nofun⟩

/-- What is heard after the end changes nothing. -/
theorem hear_of_shut (hfed : w.queue.fed = false) (hfree : w.held = none) (item : Option α) (ends : Bool) :
    w.hear item ends = w := by
  obtain ⟨queue, held⟩ := w
  obtain ⟨depth, items, fed, read⟩ := queue
  cases hfed
  cases hfree
  cases item with
  | some a => rfl
  | none => cases ends <;> rfl

/-- No reader comes back. -/
theorem hear_read (w : Outlet α) (item : Option α) (ends : Bool) :
    (w.hear item ends).queue.read = w.queue.read := by
  cases item with
  | some a => exact w.queue.push_read a
  | none => cases ends <;> rfl

section

variable {ends : HostMessage → Bool} {item? : HostMessage → Option α} {heard : List HostMessage}
  {message : HostMessage}

/-- A message is heard while nothing is held. -/
theorem Holds.hear (h : w.Holds (sentBefore ends item? heard) (HasEnded ends heard) taken)
    (hfree : w.held = none) (hends : ends message = true → item? message = none) :
    (w.hear (item? message) (ends message)).Holds (sentBefore ends item? (heard ++ [message]))
      (HasEnded ends (heard ++ [message])) taken := by
  by_cases hended : HasEnded ends heard
  · have hstill : HasEnded ends (heard ++ [message]) := hasEnded_snoc.mpr (.inl hended)
    rw [hear_of_shut (h.shut hended).1 hfree, sentBefore_of_hasEnded hended]
    exact ⟨h.whole, fun _ => h.shut hended, fun _ _ => hstill⟩
  rw [sentBefore_snoc hended]
  cases hmessage : ends message with
  | true =>
    have hnow : HasEnded ends (heard ++ [message]) := hasEnded_snoc.mpr (.inr hmessage)
    rw [hends hmessage, if_pos rfl, List.append_nil]
    refine ⟨fun hread => ?_, fun _ => ⟨rfl, rfl⟩, fun _ _ => hnow⟩
    have hwhole := h.whole hread
    rwa [hfree] at hwhole
  | false =>
    have hsame : HasEnded ends (heard ++ [message]) ↔ HasEnded ends heard := by
      rw [hasEnded_snoc, hmessage]
      exact or_iff_left nofun
    rw [hsame, if_neg nofun]
    cases item? message with
    | some a =>
      refine h.accept hended fun hread => ?_
      have hwhole := h.whole hread
      rw [hfree, Option.toList_none, List.append_nil] at hwhole
      rw [hwhole]
      rfl
    | none =>
      rw [Option.toList_none, List.append_nil]
      exact h

end

end Outlet

/-! ### The two queues -/

/-- The block of data that a delivery is. -/
def Delivery.chunk? : Delivery → Option Chunk
  | .data chunk => some chunk
  | .request _ => none

/-- The request that a delivery is. -/
def Delivery.incoming? : Delivery → Option Incoming
  | .data _ => none
  | .request incoming => some incoming

namespace Demux

variable {d : Demux}

/-- The data queue, and the block of data that is held. -/
def dataOutlet (d : Demux) : Outlet Chunk where
  queue := d.data
  held := d.held.bind Delivery.chunk?

/-- The request queue, and the request that is held. -/
def requestOutlet (d : Demux) : Outlet Incoming where
  queue := d.requests
  held := d.held.bind Delivery.incoming?

theorem held_eq_none (h : d.isBlocked = false) : d.held = none := by
  rwa [isBlocked, Option.isSome_eq_false_iff, Option.isNone_iff_eq_none] at h

theorem dataOutlet_push_data (d : Demux) (chunk : Chunk) :
    (d.push (.data chunk)).dataOutlet = d.dataOutlet.push chunk := by
  refine congrArg (Outlet.mk _) ?_
  show ((d.data.push chunk).2.map Delivery.data).bind Delivery.chunk? = (d.data.push chunk).2
  cases (d.data.push chunk).2 <;> rfl

theorem requestOutlet_push_data (d : Demux) (chunk : Chunk) :
    (d.push (.data chunk)).requestOutlet = { queue := d.requests, held := none } := by
  refine congrArg (Outlet.mk _) ?_
  show ((d.data.push chunk).2.map Delivery.data).bind Delivery.incoming? = none
  cases (d.data.push chunk).2 <;> rfl

theorem requestOutlet_push_request (d : Demux) (incoming : Incoming) :
    (d.push (.request incoming)).requestOutlet = d.requestOutlet.push incoming := by
  refine congrArg (Outlet.mk _) ?_
  show ((d.requests.push incoming).2.map Delivery.request).bind Delivery.incoming? =
    (d.requests.push incoming).2
  cases (d.requests.push incoming).2 <;> rfl

theorem dataOutlet_push_request (d : Demux) (incoming : Incoming) :
    (d.push (.request incoming)).dataOutlet = { queue := d.data, held := none } := by
  refine congrArg (Outlet.mk _) ?_
  show ((d.requests.push incoming).2.map Delivery.request).bind Delivery.chunk? = none
  cases (d.requests.push incoming).2 <;> rfl

/-- A message is held for one of the queues. -/
theorem length_held_le (d : Demux) :
    d.dataOutlet.held.toList.length + d.requestOutlet.held.toList.length ≤ 1 := by
  unfold dataOutlet requestOutlet
  rcases d.held with _ | _ | _
  · exact Nat.zero_le 1
  · exact Nat.le_refl 1
  · exact Nat.le_refl 1

/-- A held message goes where it belongs, and the other queue is left alone. -/
theorem release_cases (h : d.isBlocked = true) :
    (∃ chunk, d.dataOutlet.held = some chunk ∧ d.release.dataOutlet = d.dataOutlet.push chunk ∧
        d.release.requestOutlet = d.requestOutlet) ∨
      (∃ incoming, d.requestOutlet.held = some incoming ∧
        d.release.requestOutlet = d.requestOutlet.push incoming ∧
        d.release.dataOutlet = d.dataOutlet) := by
  obtain ⟨delivery, hheld⟩ := Option.isSome_iff_exists.mp h
  have hrelease : d.release = push { d with held := none } delivery := by rw [release, hheld]
  cases delivery with
  | data chunk =>
    refine .inl ⟨chunk, ?_, ?_, ?_⟩
    · rw [dataOutlet, hheld]
      rfl
    · rw [hrelease, dataOutlet_push_data]
      rfl
    · rw [hrelease, requestOutlet_push_data, requestOutlet, hheld]
      rfl
  | request incoming =>
    refine .inr ⟨incoming, ?_, ?_, ?_⟩
    · rw [requestOutlet, hheld]
      rfl
    · rw [hrelease, requestOutlet_push_request]
      rfl
    · rw [hrelease, dataOutlet_push_request, dataOutlet, hheld]
      rfl

theorem isBlocked_of_hasRoom (h : d.hasRoom = true) : d.isBlocked = true := by
  unfold hasRoom at h
  unfold isBlocked
  split at h
  all_goals simp_all

theorem hasRoom_of_data {data : Queue Chunk} (h : d.hasRoom = true)
    (hmore : d.data.hasRoom = true → data.hasRoom = true) : hasRoom { d with data } = true := by
  unfold hasRoom at h ⊢
  dsimp only
  split at h
  · exact hmore h
  · exact h
  · cases h

theorem hasRoom_of_requests {requests : Queue Incoming} (h : d.hasRoom = true)
    (hmore : d.requests.hasRoom = true → requests.hasRoom = true) :
    hasRoom { d with requests } = true := by
  unfold hasRoom at h ⊢
  dsimp only
  split at h
  · exact h
  · exact hmore h
  · cases h

/-- What is held for a queue that nobody reads has room at once. -/
theorem hasRoom_of_data_gone (hgone : d.data.read = false) (hheld : d.dataOutlet.held ≠ none) :
    d.hasRoom = true := by
  unfold dataOutlet at hheld
  unfold hasRoom
  split
  · exact Queue.hasRoom_of_gone hgone
  all_goals
    next heq => exact absurd (by rw [heq]; rfl) hheld

theorem hasRoom_of_requests_gone (hgone : d.requests.read = false) (hheld : d.requestOutlet.held ≠ none) :
    d.hasRoom = true := by
  unfold requestOutlet at hheld
  unfold hasRoom
  split
  case h_2 => exact Queue.hasRoom_of_gone hgone
  all_goals
    next heq => exact absurd (by rw [heq]; rfl) hheld

/-- If there is room for the held message, nothing is held after its release. -/
theorem held_release (h : d.hasRoom = true) : d.release.held = none := by
  obtain ⟨delivery, hheld⟩ := Option.isSome_iff_exists.mp (isBlocked_of_hasRoom h)
  rw [release, hheld]
  rw [hasRoom, hheld] at h
  cases delivery with
  | data chunk =>
    show (d.data.push chunk).2.map Delivery.data = none
    rw [Queue.push_of_hasRoom h]
    rfl
  | request incoming =>
    show (d.requests.push incoming).2.map Delivery.request = none
    rw [Queue.push_of_hasRoom h]
    rfl

/-- Readers may leave from one moment to another, and do not come back. -/
def ReadersLeave (d d' : Demux) : Prop :=
  (d'.data.read = true → d.data.read = true) ∧ (d'.requests.read = true → d.requests.read = true)

theorem readersLeave_release (d : Demux) : d.ReadersLeave d.release := by
  cases hheld : d.held with
  | none =>
    rw [release, hheld]
    exact ⟨id, id⟩
  | some delivery =>
    rw [release, hheld]
    cases delivery with
    | data chunk => exact ⟨(d.data.push_read chunk).symm.trans, id⟩
    | request incoming => exact ⟨id, (d.requests.push_read incoming).symm.trans⟩

end Demux

/-- Each outlet hears its part of a message. -/
theorem Owner.outlets_receive {o : Owner} (hfree : o.demux.held = none) (message : HostMessage) :
    (o.receive message).1.demux.dataOutlet =
        o.demux.dataOutlet.hear message.chunk? message.endsData ∧
      (o.receive message).1.demux.requestOutlet =
        o.demux.requestOutlet.hear message.incoming? message.endsRequests := by
  have hdata : o.demux.dataOutlet = { queue := o.demux.data, held := none } := by
    rw [Demux.dataOutlet, hfree]
    rfl
  have hrequests : o.demux.requestOutlet = { queue := o.demux.requests, held := none } := by
    rw [Demux.requestOutlet, hfree]
    rfl
  have hverdict (accepted : Bool) : (o.verdict accepted).1.demux = o.demux := by
    unfold Owner.verdict
    split <;> rfl
  cases message with
  | data chunk =>
    refine ⟨Demux.dataOutlet_push_data _ chunk, ?_⟩
    rw [hrequests]
    exact Demux.requestOutlet_push_data _ chunk
  | exitStatus status =>
    refine ⟨?_, Demux.requestOutlet_push_request _ _⟩
    rw [hdata]
    exact Demux.dataOutlet_push_request _ _
  | exitSignal name coreDumped message language =>
    refine ⟨?_, Demux.requestOutlet_push_request _ _⟩
    rw [hdata]
    exact Demux.dataOutlet_push_request _ _
  | eof =>
    refine ⟨?_, rfl⟩
    show Outlet.mk _ (o.demux.held.bind _) = _
    rw [hfree]
    rfl
  | close => exact ⟨rfl, rfl⟩
  | success => exact ⟨congrArg Demux.dataOutlet (hverdict true), congrArg Demux.requestOutlet (hverdict true)⟩
  | failure =>
    exact ⟨congrArg Demux.dataOutlet (hverdict false), congrArg Demux.requestOutlet (hverdict false)⟩
  | other => exact ⟨rfl, rfl⟩

/-- A block of data for a queue that nobody reads is not held. -/
theorem Owner.held_receive_chunk {o : Owner} (hgone : o.demux.data.read = false) {message : HostMessage}
    (hchunk : message.chunk? ≠ none) : (o.receive message).1.demux.held = none := by
  cases message with
  | data chunk =>
    show (o.demux.data.push chunk).2.map Delivery.data = none
    rw [Queue.push_of_hasRoom (Queue.hasRoom_of_gone hgone)]
    rfl
  | _ => exact absurd rfl hchunk

theorem Owner.held_receive_incoming {o : Owner} (hgone : o.demux.requests.read = false)
    {message : HostMessage} (hincoming : message.incoming? ≠ none) :
    (o.receive message).1.demux.held = none := by
  have hpush (incoming : Incoming) : (o.demux.requests.push incoming).2.map Delivery.request = none := by
    rw [Queue.push_of_hasRoom (Queue.hasRoom_of_gone hgone)]
    rfl
  cases message with
  | exitStatus | exitSignal => exact hpush _
  | _ => exact absurd rfl hincoming

/-! ### The owner and the readers -/

namespace Distribution

variable {s s' : Distribution} {action : DistributionAction}

/-- The data that the host has sent before the end of the data. -/
def dataSent (s : Distribution) : List Chunk :=
  sentBefore HostMessage.endsData HostMessage.chunk? s.heard

/-- The requests that the host has sent before it closed the channel. -/
def requestsSent (s : Distribution) : List Incoming :=
  sentBefore HostMessage.endsRequests HostMessage.incoming? s.heard

/-- Both outlets hold what was sent for them, and there is room for a message that is to be released. -/
structure Holds (s : Distribution) : Prop where
  data : s.owner.demux.dataOutlet.Holds s.dataSent (HasEnded HostMessage.endsData s.heard) s.dataTaken
  requests : s.owner.demux.requestOutlet.Holds s.requestsSent
    (HasEnded HostMessage.endsRequests s.heard) s.requestsTaken
  room : s.releasing = true → s.owner.demux.hasRoom = true

theorem Holds.start (dataDepth requestDepth : Nat) : (start dataDepth requestDepth).Holds where
  data := ⟨fun _ => rfl, nofun, nofun⟩
  requests := ⟨fun _ => rfl, nofun, nofun⟩
  room := nofun

theorem own?_cases {action : OwnerAction} (h : s.own? action = some s') :
    s.releasing = false ∧ ∃ owner effects, s.owner.step? action = some (owner, effects) ∧
      s' = { s with owner } := by
  unfold own? at h
  split_ifs at h with hreleasing
  obtain ⟨⟨owner, effects⟩, hstep, heq⟩ := Option.map_eq_some_iff.mp h
  exact ⟨eq_false_of_ne_true hreleasing, owner, effects, hstep, heq.symm⟩

theorem hear_cases {message : HostMessage} (h : s.step? (.hear message) = some s') :
    s.releasing = false ∧ s.owner.demux.held = none ∧
      s' = { s with owner := (s.owner.receive message).1, heard := s.heard ++ [message] } := by
  obtain ⟨t, hown, heq⟩ := Option.map_eq_some_iff.mp h
  obtain ⟨hreleasing, owner, effects, hstep, rfl⟩ := own?_cases hown
  obtain ⟨-, -, hblocked, hreceive⟩ := Owner.step?_message hstep
  refine ⟨hreleasing, Demux.held_eq_none hblocked, ?_⟩
  rw [← heq, hreceive]

theorem command_cases {command : Command} {sending : Except String Unit}
    (h : s.step? (.command command sending) = some s') :
    s.releasing = false ∧ ∃ owner : Owner, owner.demux = s.owner.demux ∧ s' = { s with owner } := by
  obtain ⟨hreleasing, owner, effects, howner, rfl⟩ := own?_cases h
  obtain ⟨-, hobey⟩ := Owner.step?_command howner
  have hkeeps := (s.owner.obey_keeps sending command).1
  rw [hobey] at hkeeps
  exact ⟨hreleasing, owner, hkeeps, rfl⟩

theorem findRoom_cases (h : s.step? .findRoom = some s') :
    s.owner.demux.hasRoom = true ∧ s' = { s with releasing := true } := by
  simp only [step?] at h
  split_ifs at h with hready
  simp only [Bool.and_eq_true] at hready
  cases h
  exact ⟨hready.2, rfl⟩

theorem release_cases (h : s.step? .release = some s') : s.releasing = true ∧
    s' = { s with owner := { s.owner with demux := s.owner.demux.release }, releasing := false } := by
  simp only [step?] at h
  split_ifs at h with hreleasing
  cases h
  exact ⟨hreleasing, rfl⟩

theorem takeData_cases (h : s.step? .takeData = some s') :
    ∃ data chunk, s.owner.demux.data.take = (data, .item chunk) ∧
      s' = { s with
        owner := { s.owner with demux := { s.owner.demux with data } }
        dataTaken := s.dataTaken ++ [chunk] } := by
  simp only [step?] at h
  split at h
  · next data chunk htake =>
    cases h
    exact ⟨data, chunk, htake, rfl⟩
  · cases h

theorem takeRequest_cases (h : s.step? .takeRequest = some s') :
    ∃ requests incoming, s.owner.demux.requests.take = (requests, .item incoming) ∧
      s' = { s with
        owner := { s.owner with demux := { s.owner.demux with requests } }
        requestsTaken := s.requestsTaken ++ [incoming] } := by
  simp only [step?] at h
  split at h
  · next requests incoming htake =>
    cases h
    exact ⟨requests, incoming, htake, rfl⟩
  · cases h

/-! ### What is kept -/

theorem Holds.step (h : s.Holds) (hstep : s.step? action = some s') : s'.Holds := by
  cases action with
  | hear message =>
    obtain ⟨hreleasing, hfree, rfl⟩ := hear_cases hstep
    obtain ⟨hdata, hrequests⟩ := Owner.outlets_receive hfree message
    refine ⟨?_, ?_, fun hno => absurd (hreleasing.symm.trans hno) nofun⟩
    · dsimp only
      rw [hdata]
      refine h.data.hear ?_ ?_
      · rw [Demux.dataOutlet, hfree]
        rfl
      · cases message <;> simp [HostMessage.endsData, HostMessage.chunk?, HostMessage.data?]
    · dsimp only
      rw [hrequests]
      refine h.requests.hear ?_ ?_
      · rw [Demux.requestOutlet, hfree]
        rfl
      · cases message <;> simp [HostMessage.endsRequests, HostMessage.incoming?, HostMessage.exit?]
  | command command sending =>
    obtain ⟨hreleasing, owner, hdemux, rfl⟩ := command_cases hstep
    refine ⟨?_, ?_, fun hno => absurd (hreleasing.symm.trans hno) nofun⟩
    · dsimp only
      rw [hdemux]
      exact h.data
    · dsimp only
      rw [hdemux]
      exact h.requests
  | findRoom =>
    obtain ⟨hroom, rfl⟩ := findRoom_cases hstep
    exact ⟨h.data, h.requests, fun _ => hroom⟩
  | release =>
    obtain ⟨hreleasing, rfl⟩ := release_cases hstep
    have hblocked := Demux.isBlocked_of_hasRoom (h.room hreleasing)
    rcases Demux.release_cases hblocked with ⟨chunk, hheld, hmine, hother⟩ | ⟨incoming, hheld, hmine, hother⟩
    · have hdata := h.data.release hheld
      have hrequests := h.requests
      rw [← hmine] at hdata
      rw [← hother] at hrequests
      exact ⟨hdata, hrequests, nofun⟩
    · have hrequests := h.requests.release hheld
      have hdata := h.data
      rw [← hmine] at hrequests
      rw [← hother] at hdata
      exact ⟨hdata, hrequests, nofun⟩
  | takeData =>
    obtain ⟨data, chunk, htake, rfl⟩ := takeData_cases hstep
    exact ⟨h.data.take htake, h.requests, fun hreleasing =>
      Demux.hasRoom_of_data (h.room hreleasing) fun hroom => Queue.hasRoom_take hroom htake⟩
  | takeRequest =>
    obtain ⟨requests, incoming, htake, rfl⟩ := takeRequest_cases hstep
    exact ⟨h.data, h.requests.take htake, fun hreleasing =>
      Demux.hasRoom_of_requests (h.room hreleasing) fun hroom => Queue.hasRoom_take hroom htake⟩
  | leaveData =>
    cases hstep
    exact ⟨h.data.abandon, h.requests, fun hreleasing =>
      Demux.hasRoom_of_data (h.room hreleasing) fun _ => Queue.hasRoom_of_gone rfl⟩
  | leaveRequests =>
    cases hstep
    exact ⟨h.data, h.requests.abandon, fun hreleasing =>
      Demux.hasRoom_of_requests (h.room hreleasing) fun _ => Queue.hasRoom_of_gone rfl⟩

theorem Holds.run {actions : List DistributionAction} : ∀ {s : Distribution}, s.Holds →
    s.run? actions = some s' → s'.Holds := by
  induction actions with
  | nil =>
    intro s h hrun
    cases hrun
    exact h
  | cons action more ih =>
    intro s h hrun
    obtain ⟨t, hstep, hmore⟩ := Option.bind_eq_some_iff.mp hrun
    exact ih (h.step hstep) hmore

theorem readersLeave_of_step (hstep : s.step? action = some s') : s.owner.demux.ReadersLeave s'.owner.demux := by
  cases action with
  | hear message =>
    obtain ⟨-, hfree, rfl⟩ := hear_cases hstep
    obtain ⟨hdata, hrequests⟩ := Owner.outlets_receive hfree message
    have hdata' := (congrArg (fun w => w.queue.read) hdata).trans (Outlet.hear_read ..)
    have hrequests' := (congrArg (fun w => w.queue.read) hrequests).trans (Outlet.hear_read ..)
    exact ⟨hdata'.symm.trans, hrequests'.symm.trans⟩
  | command command sending =>
    obtain ⟨-, owner, hdemux, rfl⟩ := command_cases hstep
    dsimp only
    rw [hdemux]
    exact ⟨id, id⟩
  | findRoom =>
    obtain ⟨-, rfl⟩ := findRoom_cases hstep
    exact ⟨id, id⟩
  | release =>
    obtain ⟨-, rfl⟩ := release_cases hstep
    exact Demux.readersLeave_release _
  | takeData =>
    obtain ⟨data, chunk, htake, rfl⟩ := takeData_cases hstep
    exact ⟨(Queue.take_keeps htake).2.symm.trans, id⟩
  | takeRequest =>
    obtain ⟨requests, incoming, htake, rfl⟩ := takeRequest_cases hstep
    exact ⟨id, (Queue.take_keeps htake).2.symm.trans⟩
  | leaveData =>
    cases hstep
    exact ⟨nofun, id⟩
  | leaveRequests =>
    cases hstep
    exact ⟨id, nofun⟩

theorem readersLeave_of_run {more : List DistributionAction} : ∀ {s : Distribution}, s.run? more = some s' →
    s.owner.demux.ReadersLeave s'.owner.demux := by
  induction more with
  | nil =>
    intro s hrun
    cases hrun
    exact ⟨id, id⟩
  | cons action more ih =>
    intro s hrun
    obtain ⟨t, hstep, hmore⟩ := Option.bind_eq_some_iff.mp hrun
    obtain ⟨hdata, hrequests⟩ := readersLeave_of_step hstep
    exact ⟨hdata ∘ (ih hmore).1, hrequests ∘ (ih hmore).2⟩

/-- Whatever depths the queues have, and in whatever order the owner and the readers take their steps. -/
theorem distribution_keeps_order {dataDepth requestDepth : Nat} {actions : List DistributionAction}
    (hrun : (start dataDepth requestDepth).run? actions = some s) :
    let data := s.owner.demux.dataOutlet
    let requests := s.owner.demux.requestOutlet
    -- At most one message is held, and while one is nothing is heard, neither data nor the end of a queue.
    data.held.toList.length + requests.held.toList.length ≤ 1 ∧
    (∀ message s', s.step? (.hear message) = some s' → s.owner.demux.held = none) ∧
    -- What was sent for a queue that is read was taken, is in the queue, or is held, in this order.
    (data.queue.read = true → s.dataTaken ++ data.queue.items ++ data.held.toList = s.dataSent) ∧
    (requests.queue.read = true →
      s.requestsTaken ++ requests.queue.items ++ requests.held.toList = s.requestsSent) ∧
    -- A release can follow once there was room, and leaves nothing held.
    (s.releasing = true → ∃ s', s.step? .release = some s' ∧ s'.owner.demux.held = none) ∧
    -- What is for a queue that nobody reads is never held from then on, and what is held for it has room.
    (data.queue.read = false → ∀ more s', s.run? more = some s' →
      (∀ message s'', message.chunk? ≠ none → s'.step? (.hear message) = some s'' →
        s''.owner.demux.held = none) ∧
      (s'.owner.demux.dataOutlet.held ≠ none → s'.owner.demux.hasRoom = true)) ∧
    (requests.queue.read = false → ∀ more s', s.run? more = some s' →
      (∀ message s'', message.incoming? ≠ none → s'.step? (.hear message) = some s'' →
        s''.owner.demux.held = none) ∧
      (s'.owner.demux.requestOutlet.held ≠ none → s'.owner.demux.hasRoom = true)) := by
  intro data requests
  have h := (Holds.start dataDepth requestDepth).run hrun
  refine ⟨Demux.length_held_le _, fun message s' hstep => (hear_cases hstep).2.1, h.data.whole,
    h.requests.whole, fun hreleasing => ?_, fun hgone more s' hmore => ?_, fun hgone more s' hmore => ?_⟩
  · refine ⟨{ s with owner := { s.owner with demux := s.owner.demux.release }, releasing := false }, ?_,
      Demux.held_release (h.room hreleasing)⟩
    rw [step?, if_pos hreleasing]
    rfl
  · have hgone' : s'.owner.demux.data.read = false :=
      eq_false_of_ne_true fun hread => ne_true_of_eq_false hgone ((readersLeave_of_run hmore).1 hread)
    refine ⟨fun message s'' hchunk hstep => ?_, Demux.hasRoom_of_data_gone hgone'⟩
    obtain ⟨-, -, rfl⟩ := hear_cases hstep
    exact Owner.held_receive_chunk hgone' hchunk
  · have hgone' : s'.owner.demux.requests.read = false :=
      eq_false_of_ne_true fun hread => ne_true_of_eq_false hgone ((readersLeave_of_run hmore).2 hread)
    refine ⟨fun message s'' hincoming hstep => ?_, Demux.hasRoom_of_requests_gone hgone'⟩
    obtain ⟨-, -, rfl⟩ := hear_cases hstep
    exact Owner.held_receive_incoming hgone' hincoming

/-- A block of one byte. -/
def block (b : UInt8) : Chunk :=
  { data := [b] }

/-- Queues of one place each. The second block is held until the first has been read. Nobody takes the second
request, so the owner goes on; and there is room for the third block, which waits behind the second. -/
theorem distribution_keeps_order_single_places :
    let actions : List DistributionAction := [
      .hear (.data (block 1)), .hear (.data (block 2)), .takeData, .findRoom, .release,
      .hear (.exitStatus 0), .leaveRequests, .hear (.exitStatus 1), .hear (.data (block 3)), .takeData, .findRoom]
    ∃ s, (start 1 1).run? actions = some s ∧ s.dataTaken = [block 1, block 2] ∧
      s.dataTaken ++ s.owner.demux.data.items ++ s.owner.demux.dataOutlet.held.toList = s.dataSent ∧
      s.dataSent = [block 1, block 2, block 3] ∧
      ∃ s', s.step? .release = some s' ∧ s'.owner.demux.held = none ∧
        ∀ status s'', s'.step? (.hear (.exitStatus status)) = some s'' → s''.owner.demux.held = none := by
  intro actions
  obtain ⟨s, hrun⟩ : ∃ s, (start 1 1).run? actions = some s := Option.isSome_iff_exists.mp rfl
  have hresult : ((start 1 1).run? actions).map (fun s => (s.dataTaken, s.dataSent, s.releasing,
      s.owner.demux.data.read, s.owner.demux.requests.read)) =
      some ([block 1, block 2], [block 1, block 2, block 3], true, true, false) := rfl
  rw [hrun] at hresult
  obtain ⟨htaken, hsent, hreleasing, hread, hgone⟩ : s.dataTaken = [block 1, block 2] ∧
      s.dataSent = [block 1, block 2, block 3] ∧ s.releasing = true ∧ s.owner.demux.data.read = true ∧
      s.owner.demux.requests.read = false := by
    simpa using hresult
  obtain ⟨-, -, hwhole, -, hrelease, -, hunread⟩ := distribution_keeps_order hrun
  obtain ⟨s', hstep, hfree⟩ := hrelease hreleasing
  have hlater : s.run? [.release] = some s' := by
    rw [run?, hstep]
    rfl
  exact ⟨s, hrun, htaken, hwhole hread, hsent, s', hstep, hfree,
    fun status s'' => (hunread hgone [.release] s' hlater).1 (.exitStatus status) s'' nofun⟩

end Distribution

end Gatehouse.Relay
