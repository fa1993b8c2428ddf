import Gatehouse.Proofs.Relay.ChannelStep
import Gatehouse.Proofs.Relay.Outcome

/-!
# The way of a block of data

Data passes through a queue, a copying task and a write. On the user's side a block may have to wait in
the handler before it is queued, on the host's side with the owner.

* `Feeding.Holds` and `Hosting.Holds`: what the task has taken, what is queued and what waits is what was
  sent before the end of the data, in this order, as long as the task is at work.
* `Copies`: what the task has written is what it has taken, but for the block that it holds.
* `Pipe.Through`: the task has come to the end of the data and has not failed since.

The first two are kept by whatever happens on their part of the way, one lemma for each thing that can
happen; the third holds of a task only if it has read the end.
-/

namespace Gatehouse.Relay

/-! ### What is sent before the end -/

/-- The block of data that a user sends; nothing means the end of the data. -/
def UserInput.data? : UserInput → Option (Option Chunk)
  | .data chunk => some (some chunk)
  | .eof | .close => some none
  | .request _ => none

/-- The block of data that a host sends; nothing means the end of the data. -/
def HostMessage.data? : HostMessage → Option (Option Chunk)
  | .data chunk => some (some chunk)
  | .eof | .close => some none
  | _ => none

section

variable {α : Type} {data? : α → Option (Option Chunk)} {sent more : List α} {a : α}

/-- The blocks of data that are sent before the end. -/
def beforeEnd (data? : α → Option (Option Chunk)) : List α → List Chunk
  | [] => []
  | a :: more =>
    match data? a with
    | some (some chunk) => chunk :: beforeEnd data? more
    | some none => []
    | none => beforeEnd data? more

/-- The end of the data has been sent. -/
def Ends (data? : α → Option (Option Chunk)) (sent : List α) : Prop :=
  ∃ a ∈ sent, data? a = some none

theorem ends_append : Ends data? (sent ++ more) ↔ Ends data? sent ∨ Ends data? more := by
  simp only [Ends, List.mem_append, or_and_right, exists_or]

theorem ends_singleton : Ends data? [a] ↔ data? a = some none := by
  simp [Ends]

theorem beforeEnd_of_ends (h : Ends data? sent) :
    beforeEnd data? (sent ++ more) = beforeEnd data? sent := by
  induction sent with
  | nil =>
    obtain ⟨a, hmem, -⟩ := h
    cases hmem
  | cons b sent ih =>
    rw [List.cons_append, beforeEnd, beforeEnd]
    obtain ⟨a, hmem, ha⟩ := h
    rcases List.mem_cons.mp hmem with rfl | hmem
    · rw [ha]
    · rw [ih ⟨a, hmem, ha⟩]

theorem beforeEnd_append (h : ¬ Ends data? sent) :
    beforeEnd data? (sent ++ more) = beforeEnd data? sent ++ beforeEnd data? more := by
  induction sent with
  | nil => rfl
  | cons b sent ih =>
    have hrest : ¬ Ends data? sent := fun ⟨a, hmem, ha⟩ => h ⟨a, List.mem_cons_of_mem b hmem, ha⟩
    rw [List.cons_append, beforeEnd, beforeEnd, ih hrest]
    rcases hb : data? b with _ | _ | chunk
    · rfl
    · exact absurd ⟨b, List.mem_cons_self, hb⟩ h
    · rfl

theorem beforeEnd_prefix_append (sent more : List α) :
    beforeEnd data? sent <+: beforeEnd data? (sent ++ more) := by
  by_cases h : Ends data? sent
  · have hsame := @beforeEnd_of_ends α data? sent more h
    exact hsame ▸ List.prefix_refl _
  · rw [beforeEnd_append h]
    exact List.prefix_append _ _

theorem beforeEnd_snoc_chunk (h : ¬ Ends data? sent) {chunk : Chunk} (ha : data? a = some (some chunk)) :
    beforeEnd data? (sent ++ [a]) = beforeEnd data? sent ++ [chunk] := by
  rw [beforeEnd_append h, beforeEnd, ha]
  rfl

theorem beforeEnd_snoc_other (ha : ∀ chunk, data? a ≠ some (some chunk)) :
    beforeEnd data? (sent ++ [a]) = beforeEnd data? sent := by
  by_cases h : Ends data? sent
  · exact beforeEnd_of_ends h
  · rw [beforeEnd_append h, beforeEnd]
    rcases hdata : data? a with _ | _ | chunk
    · exact List.append_nil _
    · exact List.append_nil _
    · exact absurd hdata (ha chunk)

theorem ends_snoc_of_ne (ha : data? a ≠ some none) :
    Ends data? (sent ++ [a]) ↔ Ends data? sent := by
  rw [ends_append, ends_singleton]
  exact or_iff_left ha

end

/-! ### The user's side -/

/-- The block that the handler has not queued yet. -/
def Callback.offered : Callback → List Chunk
  | .offering chunk => [chunk]
  | _ => []

/-- Where data is on its way from the user to the copying task. -/
structure Feeding where
  offered : List Chunk
  link : UserLink
  data : Queue Chunk
  fromUser : List UserInput
  /-- The copying task is at work. -/
  active : Bool

namespace Feeding

/-- What the user has sent before the end of the data. -/
def sent (s : Feeding) : List Chunk :=
  beforeEnd UserInput.data? s.fromUser

/-- What was taken of the user's data was taken in order, and so will be the rest while the copying task
is at work. -/
structure Holds (s : Feeding) (taken : List Chunk) : Prop where
  past : taken <+: s.sent
  read : s.active = true → s.data.read = true
  order : s.active = true → taken ++ s.data.items <+: s.sent
  whole : s.active = true → s.data.fed = true → taken ++ s.data.items ++ s.offered = s.sent
  complete : s.active = true → Ends UserInput.data? s.fromUser → taken ++ s.data.items = s.sent
  unended : s.data.fed = true → ¬ Ends UserInput.data? s.fromUser
  ended : s.active = true → s.data.fed = false →
    Ends UserInput.data? s.fromUser ∨ s.link = .gone

/-- The copying task has come to the end: the user will send no more data, and all of it was taken. -/
structure Done (fromUser : List UserInput) (link : UserLink) (taken : List Chunk) : Prop where
  ended : Ends UserInput.data? fromUser ∨ link = .gone
  all : Ends UserInput.data? fromUser → taken = beforeEnd UserInput.data? fromUser

variable {s : Feeding} {taken : List Chunk}

/-- The copying task may have come to its end. -/
theorem Holds.stop (h : s.Holds taken) {active : Bool} (hstop : active = true → s.active = true) :
    Holds { s with active } taken :=
  ⟨h.past, fun hactive => h.read (hstop hactive), fun hactive => h.order (hstop hactive),
    fun hactive => h.whole (hstop hactive), fun hactive => h.complete (hstop hactive), h.unended,
    fun hactive => h.ended (hstop hactive)⟩

/-- The user sends something that bears on no data. -/
theorem Holds.inputOther (h : s.Holds taken) {input : UserInput} (hinput : input.data? = none) :
    Holds { s with fromUser := s.fromUser ++ [input] } taken := by
  have hsent : sent { s with fromUser := s.fromUser ++ [input] } = s.sent :=
    beforeEnd_snoc_other (by simp [hinput])
  have hends : Ends UserInput.data? (s.fromUser ++ [input]) ↔ Ends UserInput.data? s.fromUser :=
    ends_snoc_of_ne (by simp [hinput])
  refine ⟨hsent ▸ h.past, h.read, hsent ▸ h.order, hsent ▸ h.whole, fun hactive hend => ?_,
    fun hfed => mt hends.mp (h.unended hfed), fun hactive hfed => ?_⟩
  · rw [hsent]
    exact h.complete hactive (hends.mp hend)
  · exact (h.ended hactive hfed).imp_left hends.mpr

/-- The handler is called for a block, which it has not queued yet. -/
theorem Holds.inputData (h : s.Holds taken) (hfree : s.offered = []) (chunk : Chunk) :
    Holds { s with offered := [chunk], fromUser := s.fromUser ++ [.data chunk] } taken := by
  have hends : Ends UserInput.data? (s.fromUser ++ [.data chunk]) ↔ Ends UserInput.data? s.fromUser :=
    ends_snoc_of_ne nofun
  have hgrow : s.sent <+: beforeEnd UserInput.data? (s.fromUser ++ [.data chunk]) :=
    beforeEnd_prefix_append _ _
  refine ⟨h.past.trans hgrow, h.read, fun hactive => (h.order hactive).trans hgrow,
    fun hactive hfed => ?_, fun hactive hend => ?_, fun hfed => mt hends.mp (h.unended hfed),
    fun hactive hfed => (h.ended hactive hfed).imp_left hends.mpr⟩
  · have hwhole := h.whole hactive hfed
    rw [hfree, List.append_nil] at hwhole
    show taken ++ s.data.items ++ [chunk] = beforeEnd UserInput.data? (s.fromUser ++ [.data chunk])
    rw [beforeEnd_snoc_chunk (h.unended hfed) rfl, hwhole]
    rfl
  · show _ = beforeEnd UserInput.data? (s.fromUser ++ [.data chunk])
    rw [beforeEnd_of_ends (hends.mp hend)]
    exact h.complete hactive (hends.mp hend)

/-- The user ends the data, and perhaps closes the channel. -/
theorem Holds.inputEnd (h : s.Holds taken) (hfree : s.offered = []) (hlink : s.link ≠ .gone)
    {input : UserInput} (hinput : input.data? = some none) (link : UserLink) :
    Holds { s with link, data := s.data.finish, fromUser := s.fromUser ++ [input] } taken := by
  have hsent : sent { s with link, data := s.data.finish, fromUser := s.fromUser ++ [input] } = s.sent :=
    beforeEnd_snoc_other (by simp [hinput])
  have hends : Ends UserInput.data? (s.fromUser ++ [input]) :=
    ends_append.mpr (.inr (ends_singleton.mpr hinput))
  refine ⟨hsent ▸ h.past, h.read, hsent ▸ h.order, nofun, fun hactive _ => ?_, nofun,
    fun _ _ => .inl hends⟩
  rw [hsent]
  by_cases hfed : s.data.fed = true
  · have hwhole := h.whole hactive hfed
    rw [hfree, List.append_nil] at hwhole
    exact hwhole
  · exact h.complete hactive ((h.ended hactive (Bool.eq_false_iff.mpr hfed)).resolve_right hlink)

/-- The handler offers the block to the queue, and keeps it if there is no room. -/
theorem Holds.offer (h : s.Holds taken) {chunk : Chunk} (hoffered : s.offered = [chunk]) :
    Holds { s with data := (s.data.push chunk).1, offered := (s.data.push chunk).2.toList } taken := by
  have hwhole : s.active = true → s.data.fed = true →
      taken ++ s.data.items ++ [chunk] = s.sent := hoffered ▸ h.whole
  rcases s.data.push_cases chunk with ⟨hfed, hpush⟩ | ⟨hfed, hread, hpush⟩ | ⟨hfed, hread, hpush | hpush⟩
  · rw [hpush]
    refine ⟨h.past, h.read, h.order, fun _ hno => ?_, h.complete, h.unended, h.ended⟩
    exact absurd (hfed.symm.trans hno) nofun
  · rw [hpush]
    refine ⟨h.past, h.read, h.order, nofun, h.complete, nofun, fun hactive => ?_⟩
    exact absurd ((h.read hactive).symm.trans hread) nofun
  · rw [hpush]
    have hall : s.active = true → taken ++ (s.data.items ++ [chunk]) = s.sent := fun hactive =>
      (List.append_assoc _ _ _).symm.trans (hwhole hactive hfed)
    refine ⟨h.past, h.read, fun hactive => ?_, fun hactive _ => ?_,
      fun _ hend => absurd hend (h.unended hfed), h.unended, h.ended⟩
    · show taken ++ (s.data.items ++ [chunk]) <+: s.sent
      exact hall hactive ▸ List.prefix_refl _
    · exact (List.append_nil _).trans (hall hactive)
  · rw [hpush]
    exact ⟨h.past, h.read, h.order, hwhole, h.complete, h.unended, h.ended⟩

theorem Holds.lost (h : s.Holds taken) :
    Holds { s with offered := [], link := .gone, data := s.data.finish } taken :=
  ⟨h.past, h.read, h.order, nofun, h.complete, nofun, fun _ _ => .inr rfl⟩

theorem Holds.relink (h : s.Holds taken) {link : UserLink} (hlink : s.link = .gone → link = .gone) :
    Holds { s with link } taken :=
  ⟨h.past, h.read, h.order, h.whole, h.complete, h.unended,
    fun hactive hfed => (h.ended hactive hfed).imp_right hlink⟩

/-- The copying task takes a block. -/
theorem Holds.take (h : s.Holds taken) (hactive : s.active = true) {data : Queue Chunk} {chunk : Chunk}
    (htake : s.data.take = (data, .item chunk)) : Holds { s with data } (taken ++ [chunk]) := by
  obtain ⟨hfed, hread⟩ := Queue.take_keeps htake
  have hmove : taken ++ [chunk] ++ data.items = taken ++ s.data.items := by
    simp [Queue.take_item htake]
  have horder : taken ++ [chunk] ++ data.items <+: s.sent := hmove ▸ h.order hactive
  refine ⟨(List.prefix_append _ _).trans horder, fun _ => hread.trans (h.read hactive),
    fun _ => horder, fun _ hfed' => ?_, fun _ hend => ?_,
    fun hfed' => h.unended (hfed.symm.trans hfed'),
    fun _ hfed' => h.ended hactive (hfed.symm.trans hfed')⟩
  · show taken ++ [chunk] ++ data.items ++ s.offered = s.sent
    rw [hmove]
    exact h.whole hactive (hfed.symm.trans hfed')
  · show taken ++ [chunk] ++ data.items = s.sent
    rw [hmove]
    exact h.complete hactive hend

/-- The copying task comes to the end. -/
theorem Holds.tookEnd (h : s.Holds taken) (hactive : s.active = true) {data : Queue Chunk}
    (htake : s.data.take = (data, .ended)) : Done s.fromUser s.link taken := by
  obtain ⟨-, hitems, hends⟩ := Queue.take_ended htake
  have hfed : s.data.fed = false :=
    hends.resolve_right fun hno => absurd ((h.read hactive).symm.trans hno) nofun
  refine ⟨h.ended hactive hfed, fun hend => ?_⟩
  have hall := h.complete hactive hend
  rw [hitems, List.append_nil] at hall
  exact hall

theorem Holds.abandon (h : s.Holds taken) (hstopped : s.active = false) :
    Holds { s with data := s.data.abandon } taken := by
  have hnot : ¬ s.active = true := Bool.eq_false_iff.mp hstopped
  exact ⟨h.past, fun hno => absurd hno hnot, fun hno => absurd hno hnot, fun hno => absurd hno hnot,
    fun hno => absurd hno hnot, h.unended, fun hno => absurd hno hnot⟩

section

variable {fromUser : List UserInput} {link link' : UserLink}

/-- What the user sends later does not matter. -/
theorem Done.input (h : Done fromUser link taken) (hlink : link ≠ .gone) (input : UserInput) :
    Done (fromUser ++ [input]) link' taken := by
  have hend : Ends UserInput.data? fromUser := h.ended.resolve_right hlink
  refine ⟨.inl (ends_append.mpr (.inl hend)), fun _ => ?_⟩
  exact (h.all hend).trans (beforeEnd_of_ends hend).symm

theorem Done.relink (h : Done fromUser link taken) (hlink : link = .gone → link' = .gone) :
    Done fromUser link' taken :=
  ⟨h.ended.imp_right hlink, h.all⟩

end

end Feeding

/-! ### The host's side -/

/-- The block that a held message is. -/
def heldData : Option Delivery → List Chunk
  | some (.data chunk) => [chunk]
  | _ => []

theorem heldData_request (rest : Option Incoming) : heldData (rest.map .request) = [] := by
  cases rest <;> rfl

/-- Where data is on its way from the host to the copying task. -/
structure Hosting where
  data : Queue Chunk
  held : Option Delivery
  inbox : List HostMessage
  fromHost : List HostMessage
  active : Bool

namespace Hosting

/-- Of what the owner has read, what was taken was taken in order, and so will be the rest while the
copying task is at work. -/
structure Holds (s : Hosting) (seen : List HostMessage) (taken : List Chunk) : Prop where
  heard : s.fromHost = seen ++ s.inbox
  past : taken <+: beforeEnd HostMessage.data? seen
  read : s.active = true → s.data.read = true
  whole : s.active = true →
    taken ++ s.data.items ++ heldData s.held = beforeEnd HostMessage.data? seen
  kept : s.active = true → s.data.fed = false → heldData s.held = []
  unended : s.data.fed = true → ¬ Ends HostMessage.data? seen
  ended : s.active = true → s.data.fed = false → Ends HostMessage.data? seen

/-- The copying task has come to the end, and has taken all of the host's data. -/
structure Done (fromHost : List HostMessage) (taken : List Chunk) : Prop where
  ended : Ends HostMessage.data? fromHost
  all : taken = beforeEnd HostMessage.data? fromHost

variable {s : Hosting} {seen : List HostMessage} {taken : List Chunk}

theorem Holds.stop (h : s.Holds seen taken) {active : Bool} (hstop : active = true → s.active = true) :
    Holds { s with active } seen taken :=
  ⟨h.heard, h.past, fun hactive => h.read (hstop hactive), fun hactive => h.whole (hstop hactive),
    fun hactive => h.kept (hstop hactive), h.unended, fun hactive => h.ended (hstop hactive)⟩

theorem Holds.host (h : s.Holds seen taken) (message : HostMessage) :
    Holds { s with inbox := s.inbox ++ [message], fromHost := s.fromHost ++ [message] } seen taken := by
  refine ⟨?_, h.past, h.read, h.whole, h.kept, h.unended, h.ended⟩
  show s.fromHost ++ [message] = seen ++ (s.inbox ++ [message])
  rw [h.heard, List.append_assoc]

theorem Done.host {fromHost : List HostMessage} (h : Done fromHost taken) (message : HostMessage) :
    Done (fromHost ++ [message]) taken :=
  ⟨ends_append.mpr (.inl h.ended), h.all.trans (beforeEnd_of_ends h.ended).symm⟩

theorem heard_next (h : s.Holds seen taken) {message : HostMessage} {inbox : List HostMessage}
    (hinbox : s.inbox = message :: inbox) : s.fromHost = seen ++ [message] ++ inbox := by
  rw [h.heard, hinbox, List.append_assoc]
  rfl

/-- The owner reads what bears on no data. Something else may be held from then on. -/
theorem Holds.readsOther (h : s.Holds seen taken) (hfree : heldData s.held = [])
    {message : HostMessage} {inbox : List HostMessage} (hinbox : s.inbox = message :: inbox)
    (hmessage : message.data? = none) {held : Option Delivery} (hheld : heldData held = []) :
    Holds { s with inbox, held } (seen ++ [message]) taken := by
  have hsame : beforeEnd HostMessage.data? (seen ++ [message]) = beforeEnd HostMessage.data? seen :=
    beforeEnd_snoc_other (by simp [hmessage])
  have hends : Ends HostMessage.data? (seen ++ [message]) ↔ Ends HostMessage.data? seen :=
    ends_snoc_of_ne (by simp [hmessage])
  refine ⟨heard_next h hinbox, hsame ▸ h.past, h.read, fun hactive => ?_, fun _ _ => hheld,
    fun hfed => mt hends.mp (h.unended hfed), fun hactive hfed => hends.mpr (h.ended hactive hfed)⟩
  have hwhole := h.whole hactive
  rw [hfree] at hwhole
  show taken ++ s.data.items ++ heldData held = _
  rw [hheld, hsame, hwhole]

/-- The owner reads the end of the data. -/
theorem Holds.readsEnd (h : s.Holds seen taken) (hfree : heldData s.held = [])
    {message : HostMessage} {inbox : List HostMessage} (hinbox : s.inbox = message :: inbox)
    (hmessage : message.data? = some none) {held : Option Delivery} (hheld : heldData held = []) :
    Holds { s with inbox, held, data := s.data.finish } (seen ++ [message]) taken := by
  have hsame : beforeEnd HostMessage.data? (seen ++ [message]) = beforeEnd HostMessage.data? seen :=
    beforeEnd_snoc_other (by simp [hmessage])
  have hends : Ends HostMessage.data? (seen ++ [message]) :=
    ends_append.mpr (.inr (ends_singleton.mpr hmessage))
  refine ⟨heard_next h hinbox, hsame ▸ h.past, h.read, fun hactive => ?_, fun _ _ => hheld, nofun,
    fun _ _ => hends⟩
  have hwhole := h.whole hactive
  rw [hfree] at hwhole
  show taken ++ s.data.items ++ heldData held = _
  rw [hheld, hsame, hwhole]

/-- The owner tries to put the held block into its queue. -/
theorem Holds.release (h : s.Holds seen taken) {chunk : Chunk} (hheld : s.held = some (.data chunk)) :
    Holds { s with data := (s.data.push chunk).1, held := (s.data.push chunk).2.map .data } seen
      taken := by
  have hwhole : s.active = true →
      taken ++ s.data.items ++ [chunk] = beforeEnd HostMessage.data? seen := by
    intro hactive
    have hwhole := h.whole hactive
    rw [hheld] at hwhole
    exact hwhole
  have hfed' : s.active = true → s.data.fed = true := by
    intro hactive
    by_contra hfed
    have hnone := h.kept hactive (Bool.eq_false_iff.mpr hfed)
    rw [hheld] at hnone
    cases hnone
  rcases s.data.push_cases chunk with ⟨hfed, hpush⟩ | ⟨hfed, hread, hpush⟩ | ⟨hfed, hread, hpush | hpush⟩
  · have hnot : ¬ s.active = true := fun hactive =>
      absurd (hfed.symm.trans (hfed' hactive)) nofun
    rw [hpush]
    exact ⟨h.heard, h.past, h.read, fun hactive => absurd hactive hnot, fun _ _ => rfl, h.unended,
      h.ended⟩
  · have hnot : ¬ s.active = true := fun hactive =>
      absurd ((h.read hactive).symm.trans hread) nofun
    rw [hpush]
    exact ⟨h.heard, h.past, h.read, fun hactive => absurd hactive hnot, fun _ _ => rfl, nofun,
      fun hactive => absurd hactive hnot⟩
  · rw [hpush]
    refine ⟨h.heard, h.past, h.read, fun hactive => ?_, fun _ _ => rfl, h.unended, h.ended⟩
    show taken ++ (s.data.items ++ [chunk]) ++ [] = _
    rw [List.append_nil, ← List.append_assoc, hwhole hactive]
  · rw [hpush]
    exact ⟨h.heard, h.past, h.read, hwhole, fun _ hno => absurd (hfed.symm.trans hno) nofun, h.unended,
      h.ended⟩

/-- The owner reads a block, which it puts into the queue or holds. -/
theorem Holds.readsData (h : s.Holds seen taken) (hfree : heldData s.held = []) {chunk : Chunk}
    {inbox : List HostMessage} (hinbox : s.inbox = .data chunk :: inbox) :
    Holds { s with inbox, data := (s.data.push chunk).1, held := (s.data.push chunk).2.map .data }
      (seen ++ [.data chunk]) taken := by
  have hends : Ends HostMessage.data? (seen ++ [.data chunk]) ↔ Ends HostMessage.data? seen :=
    ends_snoc_of_ne nofun
  have hpast : taken <+: beforeEnd HostMessage.data? (seen ++ [.data chunk]) :=
    h.past.trans (beforeEnd_prefix_append _ _)
  have hwhole : s.active = true → taken ++ s.data.items = beforeEnd HostMessage.data? seen := by
    intro hactive
    have hwhole := h.whole hactive
    rwa [hfree, List.append_nil] at hwhole
  by_cases hfed : s.data.fed = true
  · have hheld : Holds { s with inbox, held := some (.data chunk) } (seen ++ [.data chunk]) taken := by
      refine ⟨heard_next h hinbox, hpast, h.read, fun hactive => ?_,
        fun _ hno => absurd (hfed.symm.trans hno) nofun, fun _ => mt hends.mp (h.unended hfed),
        fun _ hno => absurd (hfed.symm.trans hno) nofun⟩
      show taken ++ s.data.items ++ [chunk] = _
      rw [beforeEnd_snoc_chunk (h.unended hfed) rfl, hwhole hactive]
    exact hheld.release rfl
  · -- Data that comes after the end is lost.
    have hpush : s.data.push chunk = (s.data, none) := by
      rw [Queue.push, if_pos (by simpa using hfed)]
    rw [hpush]
    refine ⟨heard_next h hinbox, hpast, h.read, fun hactive => ?_, fun _ _ => rfl,
      fun hno => absurd hno hfed, fun hactive hno => hends.mpr (h.ended hactive hno)⟩
    show taken ++ s.data.items ++ [] = _
    rw [List.append_nil, hwhole hactive,
      beforeEnd_of_ends (h.ended hactive (Bool.eq_false_iff.mpr hfed))]

/-- The owner tries to put a held request into its queue. -/
theorem Holds.rehold (h : s.Holds seen taken) (hfree : heldData s.held = []) {held : Option Delivery}
    (hheld : heldData held = []) : Holds { s with held } seen taken := by
  refine ⟨h.heard, h.past, h.read, fun hactive => ?_, fun _ _ => hheld, h.unended, h.ended⟩
  have hwhole := h.whole hactive
  rw [hfree] at hwhole
  show taken ++ s.data.items ++ heldData held = _
  rw [hheld, hwhole]

/-- The owner ends after the copying task. -/
theorem Holds.finish (h : s.Holds seen taken) (hstopped : s.active = false) :
    Holds { s with data := s.data.finish, held := none } seen taken := by
  have hnot : ¬ s.active = true := Bool.eq_false_iff.mp hstopped
  exact ⟨h.heard, h.past, fun hno => absurd hno hnot, fun hno => absurd hno hnot, fun _ _ => rfl, nofun,
    fun hno => absurd hno hnot⟩

theorem Holds.abandon (h : s.Holds seen taken) (hstopped : s.active = false) :
    Holds { s with data := s.data.abandon } seen taken := by
  have hnot : ¬ s.active = true := Bool.eq_false_iff.mp hstopped
  exact ⟨h.heard, h.past, fun hno => absurd hno hnot, fun hno => absurd hno hnot,
    fun hno => absurd hno hnot, h.unended, fun hno => absurd hno hnot⟩

/-- The copying task takes a block. -/
theorem Holds.take (h : s.Holds seen taken) (hactive : s.active = true) {data : Queue Chunk}
    {chunk : Chunk} (htake : s.data.take = (data, .item chunk)) :
    Holds { s with data } seen (taken ++ [chunk]) := by
  obtain ⟨hfed, hread⟩ := Queue.take_keeps htake
  have hwhole : taken ++ [chunk] ++ data.items ++ heldData s.held =
      beforeEnd HostMessage.data? seen := by
    rw [← h.whole hactive, Queue.take_item htake]
    simp
  have hpast : taken ++ [chunk] <+: beforeEnd HostMessage.data? seen := by
    rw [← hwhole, List.append_assoc (taken ++ [chunk])]
    exact List.prefix_append _ _
  exact ⟨h.heard, hpast, fun _ => hread.trans (h.read hactive), fun _ => hwhole,
    fun _ hfed' => h.kept hactive (hfed.symm.trans hfed'),
    fun hfed' => h.unended (hfed.symm.trans hfed'),
    fun _ hfed' => h.ended hactive (hfed.symm.trans hfed')⟩

/-- The copying task comes to the end. -/
theorem Holds.tookEnd (h : s.Holds seen taken) (hactive : s.active = true) {data : Queue Chunk}
    (htake : s.data.take = (data, .ended)) : Done s.fromHost taken := by
  obtain ⟨-, hitems, hends⟩ := Queue.take_ended htake
  have hfed : s.data.fed = false :=
    hends.resolve_right fun hno => absurd ((h.read hactive).symm.trans hno) nofun
  have hend : Ends HostMessage.data? seen := h.ended hactive hfed
  have hwhole := h.whole hactive
  rw [hitems, h.kept hactive hfed, List.append_nil, List.append_nil] at hwhole
  constructor
  · rw [h.heard]
    exact ends_append.mpr (.inl hend)
  · rw [h.heard, beforeEnd_of_ends hend]
    exact hwhole

end Hosting

/-! ### Copying -/

/-- What a copying task has moved is what it has taken, but for the block that it holds. -/
def Copies (moved : List Chunk → Prop) (taken : List Chunk) : Copying → Prop
  | .reading | .halfClosing => moved taken
  | .recording chunk | .writing chunk => ∃ before, taken = before ++ [chunk] ∧ moved before
  | .reporting _ | .gone => ∃ before, before <+: taken ∧ moved before

/-- In any case it has moved nothing else. -/
theorem Copies.moved {moved : List Chunk → Prop} {taken : List Chunk} {state : Copying}
    (h : Copies moved taken state) : ∃ before, before <+: taken ∧ moved before := by
  cases state with
  | reading | halfClosing => exact ⟨taken, List.prefix_refl _, h⟩
  | recording chunk | writing chunk =>
    obtain ⟨before, rfl, hmoved⟩ := h
    exact ⟨before, List.prefix_append _ _, hmoved⟩
  | reporting | gone => exact h

namespace Pipe

variable {p p' : Pipe} {action : PipeAction} {source : Side}

/-- A task has reported its success. -/
def Reported (p : Pipe) (task : PipeTask) : Prop :=
  task ∈ p.completions ∨ p.finished task = true

theorem reported_of_step {task : PipeTask} (h : Step p action p') (hreported : p'.Reported task) :
    p.Reported task ∨ p.report? task = some (.ok ()) := by
  cases h with
  | readChunk | readEnd | readError | recorded | wrote | writeError | halfClosed | took | tookEnd
  | recordedCommand | sent | sendError | replied | replyError => exact .inl hreported
  | @reports other hreport =>
    rcases hreported with hmem | hfinished
    · rcases List.mem_append.mp hmem with hmem | hmem
      · exact .inl (.inl hmem)
      · cases List.mem_singleton.mp hmem
        exact .inr hreport
    · cases other <;> exact .inl (.inr hfinished)
  | @reportsError other | @dies other => cases other <;> exact .inl hreported
  | @seesError e rest =>
    obtain ⟨closed, control, heq⟩ :=
      (tasks.foldl endTask { p with errors := rest }).startClosing_eq [.outbound, .inbound]
        (some (.error e))
    rw [conclude, heq] at hreported
    exact .inl hreported
  | @seesCompletion other rest _ hcompletions =>
    obtain ⟨closed, control, heq⟩ := noteCompletion_eq { p with completions := rest } other
    rw [heq] at hreported
    have hold : p.Reported task := by
      rcases hreported with hmem | hfinished
      · exact .inl (hcompletions ▸ List.mem_cons_of_mem _ hmem)
      · dsimp only at hfinished
        split_ifs at hfinished with htask
        · exact .inl (hcompletions ▸ htask ▸ List.mem_cons_self)
        · exact .inr hfinished
    exact .inl hold
  | seesNothing =>
    obtain ⟨closed, control, heq⟩ := p.startClosing_eq [.outbound, .inbound]
      (some (.error (.task "relay tasks exited unexpectedly")))
    rw [conclude, heq] at hreported
    exact .inl hreported
  | @closed side todo result =>
    obtain ⟨closed, control, heq⟩ := p.startClosing_eq todo result
    rw [heq] at hreported
    exact .inl hreported

/-- The task copying from a side has come to the end of the data and has not failed since. -/
def Through (p : Pipe) (source : Side) : Prop :=
  p.copying source = .halfClosing ∨ p.copying source = .reporting (.ok ()) ∨
    .data source ∈ p.completions ∨ p.finished (.data source) = true

theorem through_setCopying {side : Side} {state : Copying}
    (h : (p.setCopying side state).Through source) :
    source = side ∧ (state = .halfClosing ∨ state = .reporting (.ok ())) ∨ p.Through source := by
  by_cases heq : source = side
  · subst heq
    have hstate : (p.setCopying source state).copying source = state := if_pos rfl
    rw [Through, hstate] at h
    rcases h with h | h | h | h
    · exact .inl ⟨rfl, .inl h⟩
    · exact .inl ⟨rfl, .inr h⟩
    · exact .inr (.inr (.inr (.inl h)))
    · exact .inr (.inr (.inr (.inr h)))
  · have hstate : (p.setCopying side state).copying source = p.copying source := if_neg heq
    rw [Through, hstate] at h
    exact .inr h

/-- Only who reads the end comes through. -/
theorem through_of_step (h : Step p action p') (hthrough : p'.Through source) :
    p.Through source ∨ action = .read source (.ok none) := by
  have hall := h
  by_cases hmine : action.worker? = some (.data source)
  · cases h with
    | readChunk =>
      rcases through_setCopying hthrough with ⟨-, hno⟩ | hold
      · unfold afterRead at hno
        split_ifs at hno <;> rcases hno with hno | hno <;> cases hno
      · exact .inl hold
    | readEnd =>
      cases hmine
      exact .inr rfl
    | halfClosed hstate =>
      cases hmine
      exact .inl (.inl hstate)
    | readError | recorded | wrote | writeError =>
      rcases through_setCopying hthrough with ⟨-, hno | hno⟩ | hold
      · cases hno
      · cases hno
      · exact .inl hold
    | _ => cases hmine
  · have hstays {state : Copying} (hstate : p'.copying source = state) (hne : state ≠ .gone) :
        p.copying source = state := by
      rcases unmoved_of_step hall hmine with hsame | hgone
      · exact hsame.symm.trans hstate
      · exact absurd (hstate.symm.trans (isGone_data.mp hgone)) hne
    rcases hthrough with hstate | hstate | hreported
    · exact .inl (.inl (hstays hstate nofun))
    · exact .inl (.inr (.inl (hstays hstate nofun)))
    · rcases reported_of_step hall hreported with hold | hreport
      · exact .inl (.inr (.inr hold))
      · exact .inl (.inr (.inl (report?_data hreport)))

/-- A success is returned only when that of all tasks has been seen. -/
def Earned (p : Pipe) : Prop :=
  p.EndsWith (.ok ()) → ∀ task, p.finished task = true

theorem earned_startClosing {sides : List Side} {outcome : Option (Except RelayError Unit)}
    (h : outcome = some (.ok ()) → ∀ task, p.finished task = true) :
    Earned (p.startClosing sides outcome) := by
  intro hends
  obtain ⟨closed, control, heq⟩ := p.startClosing_eq sides outcome
  have hfinished := h (endsWith_of_startClosing hends)
  rw [heq]
  exact hfinished

theorem earned_noteCompletion (hcontrol : p.control = .waiting) (task : PipeTask) :
    Earned (p.noteCompletion task) := by
  unfold noteCompletion conclude
  dsimp only
  split_ifs with hall
  · refine earned_startClosing fun _ other => ?_
    simp only [Bool.and_eq_true, sideFinished] at hall
    obtain ⟨⟨hdata, hrequests⟩, hdata', hrequests'⟩ := hall
    rcases other with (_ | _) | (_ | _)
    · exact hdata
    · exact hdata'
    · exact hrequests
    · exact hrequests'
  · exact earned_startClosing fun hno => absurd hno (Option.some_ne_none _).symm
  · exact earned_startClosing fun hno => absurd hno (Option.some_ne_none _).symm
  · intro hends
    exact absurd hends.isEnding (not_isEnding_of_waiting hcontrol)

theorem Earned.step (h : Earned p) (hstep : Step p action p') : Earned p' := by
  cases hstep with
  | readChunk | readEnd | readError | recorded | wrote | writeError | halfClosed | took | tookEnd
  | recordedCommand | sent | sendError | replied | replyError => exact h
  | @reports task | @reportsError task | @dies task => cases task <;> exact h
  | seesError => exact earned_startClosing nofun
  | @seesCompletion task rest hcontrol =>
    have hwaiting : control { p with completions := rest } = .waiting := hcontrol
    exact earned_noteCompletion hwaiting task
  | seesNothing => exact earned_startClosing nofun
  | @closed side todo result hcontrol =>
    exact earned_startClosing fun hok => h (.inl ⟨side :: todo, hok ▸ hcontrol⟩)

theorem through_cases (h : Orderly p) (hthrough : p.Through source) :
    p.copying source = .halfClosing ∨ p.copying source = .reporting (.ok ()) ∨
      p.copying source = .gone := by
  rcases hthrough with hstate | hstate | hmem | hfinished
  · exact .inl hstate
  · exact .inr (.inl hstate)
  · exact .inr (.inr (isGone_data.mp (h.completions _ hmem)))
  · exact .inr (.inr (isGone_data.mp (h.finished _ hfinished)))

/-- The task copying from a side keeps to what it takes, and once it has come through it has moved all of
it and is done. -/
structure Copied (p : Pipe) (source : Side) (moved : List Chunk → Prop) (done : Prop)
    (taken : List Chunk) : Prop where
  copies : Copies moved taken (p.copying source)
  through : p.Through source → moved taken ∧ done

variable {moved moved' : List Chunk → Prop} {done done' : Prop} {taken : List Chunk} {chunk : Chunk}

theorem Copied.imp (h : p.Copied source moved done taken) (hmoved : ∀ items, moved items → moved' items)
    (hdone : done → done') : p.Copied source moved' done' taken := by
  refine ⟨?_, fun hthrough => (h.through hthrough).imp (hmoved taken) hdone⟩
  have hcopies := h.copies
  cases hstate : p.copying source with
  | reading | halfClosing =>
    rw [hstate] at hcopies
    exact hmoved taken hcopies
  | recording | writing | reporting | gone =>
    rw [hstate] at hcopies
    obtain ⟨before, htaken, hbefore⟩ := hcopies
    exact ⟨before, htaken, hmoved before hbefore⟩

/-- The task does nothing itself. -/
theorem Copied.rests (h : p.Copied source moved done taken) (hstep : Step p action p')
    (hother : action.worker? ≠ some (.data source)) : p'.Copied source moved done taken := by
  constructor
  · rcases unmoved_of_step hstep hother with hsame | hgone
    · rw [show p'.copying source = p.copying source from hsame]
      exact h.copies
    · rw [isGone_data.mp hgone]
      exact h.copies.moved
  · intro hthrough
    rcases through_of_step hstep hthrough with hold | rfl
    · exact h.through hold
    · exact absurd rfl hother

/-- A task that is not at the end has not come through. -/
theorem copied_of_work (hstep : Step p action p') (hread : action ≠ .read source (.ok none))
    (hnot : ¬ p.Through source) (hcopies : Copies moved taken (p'.copying source)) :
    p'.Copied source moved done taken := by
  refine ⟨hcopies, fun hthrough => ?_⟩
  rcases through_of_step hstep hthrough with hold | heq
  · exact absurd hold hnot
  · exact absurd heq hread

theorem copying_setCopying (p : Pipe) (source : Side) (state : Copying) :
    (p.setCopying source state).copying source = state := by
  simp [setCopying]

theorem Copied.readsChunk (h : p.Copied source moved done taken) (horderly : Orderly p)
    (hstep : Step p (.read source (.ok (some chunk))) p') :
    p'.Copied source moved done' (taken ++ [chunk]) := by
  have hall := hstep
  cases hstep with
  | readChunk hstate =>
    have hmoved := h.copies
    rw [hstate] at hmoved
    refine copied_of_work hall nofun (fun hthrough => ?_) ?_
    · rcases through_cases horderly hthrough with hno | hno | hno <;> cases hstate.symm.trans hno
    · rw [copying_setCopying, afterRead]
      split_ifs
      · exact ⟨taken, rfl, hmoved⟩
      · exact ⟨taken, rfl, hmoved⟩

theorem Copied.readsEnd (h : p.Copied source moved done taken)
    (hstep : Step p (.read source (.ok none)) p') (hdone : done') :
    p'.Copied source moved done' taken := by
  cases hstep with
  | readEnd hstate =>
    have hmoved := h.copies
    rw [hstate] at hmoved
    refine ⟨?_, fun _ => ⟨hmoved, hdone⟩⟩
    rw [copying_setCopying]
    exact hmoved

theorem Copied.records (h : p.Copied source moved done taken) (horderly : Orderly p)
    (hstep : Step p (.recorded source chunk) p') : p'.Copied source moved done taken := by
  have hall := hstep
  cases hstep with
  | recorded hstate =>
    have hheld := h.copies
    rw [hstate] at hheld
    refine copied_of_work hall nofun (fun hthrough => ?_) ?_
    · rcases through_cases horderly hthrough with hno | hno | hno <;> cases hstate.symm.trans hno
    · rw [copying_setCopying]
      exact hheld

/-- The task writes the block that it holds, or fails to. -/
theorem Copied.writes (h : p.Copied source moved done taken) (horderly : Orderly p)
    {result : Except RelayError Unit} (hstep : Step p (.wrote source chunk result) p')
    (hok : result = .ok () → ∀ before, moved before → moved' (before ++ [chunk]))
    (herror : ∀ e, result = .error e → ∀ before, moved before → moved' before) :
    p'.Copied source moved' done' taken := by
  have hnot : p.copying source = .writing chunk → ¬ p.Through source := by
    intro hstate hthrough
    rcases through_cases horderly hthrough with hno | hno | hno <;> cases hstate.symm.trans hno
  have hall := hstep
  cases hstep with
  | wrote hstate =>
    have hheld := h.copies
    rw [hstate] at hheld
    obtain ⟨before, rfl, hmoved⟩ := hheld
    refine copied_of_work hall nofun (hnot hstate) ?_
    rw [copying_setCopying]
    exact hok rfl before hmoved
  | writeError hstate =>
    have hheld := h.copies
    rw [hstate] at hheld
    obtain ⟨before, rfl, hmoved⟩ := hheld
    refine copied_of_work hall nofun (hnot hstate) ?_
    rw [copying_setCopying]
    exact ⟨before, List.prefix_append _ _, herror _ rfl before hmoved⟩

theorem Copied.halfCloses (h : p.Copied source moved done taken) {result : Except RelayError Unit}
    (hstep : Step p (.halfClosed source result) p') : p'.Copied source moved done taken := by
  have hall := hstep
  cases hstep with
  | halfClosed hstate =>
    have hmoved := h.copies
    rw [hstate] at hmoved
    constructor
    · rw [copying_setCopying]
      exact ⟨taken, List.prefix_refl _, hmoved⟩
    · intro hthrough
      rcases through_of_step hall hthrough with hold | heq
      · exact h.through hold
      · cases heq

end Pipe

end Gatehouse.Relay
