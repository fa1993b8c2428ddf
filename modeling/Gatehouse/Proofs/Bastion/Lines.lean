import Gatehouse.Bastion.Connection
import Gatehouse.Proofs.Relay.ChannelStep
import Mathlib.Data.List.TakeWhile

/-!
# What reaches the queues of a relayed channel

The data of a channel is what comes under its number from its opening to its end (`sentOn`). A relay reads
it in order (`Line.Keeps`): what it has read and what lies in the queue is the beginning of what was sent,
and as long as the relay reads, nothing else is missing than what the handler waits with.

Each thing that can happen to a pair of queues has its lemma: an event that does not concern them, a block
of data, the end of the data or of the channel, and what the relay does on its side.
-/

namespace Gatehouse.Bastion

open Relay (Chunk Feed Queue)

/-! ### What is sent on a channel -/

/-- The block of data that comes on a channel. -/
def chunk? (channel : ChannelId) : ConnectionEvent → Option Chunk
  | .data other chunk => if other = channel then some chunk else none
  | _ => none

/-- Whether no data comes on a channel after this. A new opening makes its number that of another channel. -/
def ends (channel : ChannelId) : ConnectionEvent → Bool
  | .eof other | .closed other | .opened other _ => other == channel
  | _ => false

/-- The data that comes on a channel before its end, in order. -/
def sentOn (channel : ChannelId) (events : List ConnectionEvent) : List Chunk :=
  (events.takeWhile fun e => !ends channel e).filterMap (chunk? channel)

/-- The data of a channel has ended. -/
def Over (channel : ChannelId) (events : List ConnectionEvent) : Prop :=
  ∃ e ∈ events, ends channel e = true

/-- A channel has been closed, or its number has been given to another. -/
def Released (channel : ChannelId) (events : List ConnectionEvent) : Prop :=
  ∃ e ∈ events, e = .closed channel ∨ ∃ kind, e = .opened channel kind

section Sent

variable {channel : ChannelId} {events : List ConnectionEvent} {event : ConnectionEvent}

theorem over_concat :
    Over channel (events ++ [event]) ↔ Over channel events ∨ ends channel event = true := by
  simp only [Over, List.mem_append, List.mem_singleton, or_and_right, exists_or, exists_eq_left]

theorem released_concat : Released channel (events ++ [event]) ↔
    Released channel events ∨ (event = .closed channel ∨ ∃ kind, event = .opened channel kind) := by
  simp only [Released, List.mem_append, List.mem_singleton, or_and_right, exists_or, exists_eq_left]

theorem ends_of_releases (h : event = .closed channel ∨ ∃ kind, event = .opened channel kind) :
    ends channel event = true := by
  rcases h with rfl | ⟨kind, rfl⟩ <;> exact beq_self_eq_true channel

theorem over_of_released (h : Released channel events) : Over channel events :=
  h.imp fun _ ⟨hmem, he⟩ => ⟨hmem, ends_of_releases he⟩

/-- After the end of a channel nothing counts. -/
theorem sentOn_of_over (h : Over channel events) (event : ConnectionEvent) :
    sentOn channel (events ++ [event]) = sentOn channel events := by
  obtain ⟨e, hmem, hends⟩ := h
  obtain ⟨before, after, rfl⟩ := List.append_of_mem hmem
  induction before with
  | nil => simp [sentOn, hends]
  | cons first before ih =>
    have hrest := ih (by simp)
    unfold sentOn at hrest ⊢
    by_cases hfirst : ends channel first = true
    · simp [hfirst]
    · simp only [List.cons_append, List.takeWhile_cons, hfirst, Bool.not_false, if_true,
        List.filterMap_cons] at hrest ⊢
      rw [hrest]

/-- Until then each block of data counts. -/
theorem sentOn_concat (h : ¬ Over channel events) (event : ConnectionEvent) :
    sentOn channel (events ++ [event]) = sentOn channel events ++ (chunk? channel event).toList := by
  have hall : ∀ e ∈ events, (!ends channel e) = true := fun e he =>
    Bool.not_eq_true' _ ▸ Bool.eq_false_iff.mpr fun hends => h ⟨e, he, hends⟩
  have hevent : ends channel event = true → chunk? channel event = none := by
    cases event <;> simp [ends, chunk?]
  unfold sentOn
  rw [List.takeWhile_append_of_pos hall, List.filterMap_append,
    List.takeWhile_eq_self_iff.mpr hall]
  congr 1
  by_cases hends : ends channel event = true
  · simp [hends, hevent hends]
  · cases hchunk : chunk? channel event <;> simp [hends, hchunk]

theorem sentOn_prefix_concat (event : ConnectionEvent) :
    sentOn channel events <+: sentOn channel (events ++ [event]) := by
  by_cases hover : Over channel events
  · exact ⟨[], by rw [List.append_nil, sentOn_of_over hover]⟩
  · exact ⟨_, (sentOn_concat hover event).symm⟩

theorem sentOn_of_none (h : chunk? channel event = none) :
    sentOn channel (events ++ [event]) = sentOn channel events := by
  by_cases hover : Over channel events
  · exact sentOn_of_over hover event
  · rw [sentOn_concat hover, h]
    exact List.append_nil _

end Sent

/-! ### One pair of queues -/

namespace Line

/-- What has come of a channel's data, where these things have happened since the channel was opened and the
handler waits with some data. As long as the relay reads, all of the data that was sent has got into the
queue or waits; else it has got no further than that. -/
structure Keeps (l : Line) (later : List ConnectionEvent) (waiting : List Chunk) : Prop where
  held : l.held = true ↔ ¬ Released l.channel later
  fed : ¬ Over l.channel later → l.feed.data.read = true → l.feed.data.fed = true
  unfed : Over l.channel later → l.feed.data.fed = false ∧ waiting = []
  whole : l.feed.data.read = true →
    l.taken ++ l.feed.data.items ++ waiting = sentOn l.channel later
  part : l.taken ++ l.feed.data.items <+: sentOn l.channel later

namespace Keeps

variable {l : Line} {later : List ConnectionEvent} {waiting : List Chunk} {event : ConnectionEvent}

theorem start (channel : ChannelId) (opening : Nat) : Keeps { channel, opening } [] [] where
  held := ⟨fun _ ⟨_, hmem, _⟩ => (nomatch hmem), fun _ => rfl⟩
  fed := fun _ _ => rfl
  unfed := fun ⟨_, hmem, _⟩ => nomatch hmem
  whole := fun _ => rfl
  part := List.nil_prefix

theorem over_of_not_held (h : l.Keeps later waiting) (hreleased : ¬ l.held = true) : Over l.channel later :=
  over_of_released (not_not.mp fun hnot => hreleased (h.held.mpr hnot))

/-- Nothing happens to the queue of data, and no data comes for it. -/
theorem ignores (h : l.Keeps later waiting)
    (hnot : l.held = true → ends l.channel event = false ∧ chunk? l.channel event = none) :
    l.Keeps (later ++ [event]) waiting := by
  have hover : Over l.channel (later ++ [event]) → Over l.channel later := by
    rw [over_concat]
    rintro (hold | hends)
    · exact hold
    · exact h.over_of_not_held fun hheld => Bool.false_ne_true ((hnot hheld).1.symm.trans hends)
  have hsent : sentOn l.channel (later ++ [event]) = sentOn l.channel later := by
    by_cases hheld : l.held = true
    · exact sentOn_of_none (hnot hheld).2
    · exact sentOn_of_over (h.over_of_not_held hheld) event
  refine ⟨?_, fun hnew => h.fed fun hold => hnew (over_concat.mpr (.inl hold)),
    fun hnew => h.unfed (hover hnew), by rw [hsent]; exact h.whole, by rw [hsent]; exact h.part⟩
  rw [released_concat, not_or, ← h.held]
  refine ⟨fun hheld => ⟨hheld, fun hreleases => ?_⟩, And.left⟩
  exact Bool.false_ne_true ((hnot hheld).1.symm.trans (ends_of_releases hreleases))

/-- A block of data comes and waits. -/
theorem arrives (h : l.Keeps later []) (hopen : ¬ Over l.channel later) (chunk : Chunk) :
    l.Keeps (later ++ [.data l.channel chunk]) [chunk] where
  held := by
    rw [h.held, released_concat]
    simp
  fed := fun _ => h.fed hopen
  unfed := fun hnew => absurd ((over_concat.mp hnew).resolve_right Bool.false_ne_true) hopen
  whole := fun hread => by
    rw [sentOn_concat hopen, ← h.whole hread]
    simp [chunk?]
  part := h.part.trans (sentOn_prefix_concat _)

/-- A block of data comes too late. -/
theorem disregards (h : l.Keeps later []) (hover : Over l.channel later) (chunk : Chunk) :
    l.Keeps (later ++ [.data l.channel chunk]) [] where
  held := by
    rw [h.held, released_concat]
    simp
  fed := fun hnot => absurd (over_concat.mpr (.inl hover)) hnot
  unfed := fun _ => h.unfed hover
  whole := by
    rw [sentOn_of_over hover]
    exact h.whole
  part := by
    rw [sentOn_of_over hover]
    exact h.part

/-- A block of data that waits is offered, and gets into the queue or waits on. -/
theorem offersAgain {feed : Feed} {rest : Option Chunk} {chunk : Chunk} (h : l.Keeps later [chunk])
    (hoffer : l.feed.offer chunk = (feed, rest)) : Keeps { l with feed } later rest.toList := by
  have hopen : ¬ Over l.channel later := fun hover => nomatch (h.unfed hover).2
  rcases Queue.push_cases l.feed.data chunk with ⟨hfed, hpush⟩ | ⟨-, hread, hpush⟩ |
    ⟨hfed, hread, hpush | hpush⟩ <;> simp only [Feed.offer, hpush, Prod.mk.injEq] at hoffer <;>
    obtain ⟨rfl, rfl⟩ := hoffer
  · refine ⟨h.held, h.fed, fun hover => absurd hover hopen, fun hread => ?_, h.part⟩
    exact absurd (hfed.symm.trans (h.fed hopen hread)) Bool.false_ne_true
  · refine ⟨h.held, fun _ hreads => ?_, fun hover => absurd hover hopen, fun hreads => ?_, h.part⟩ <;>
      exact absurd (hread.symm.trans hreads) Bool.false_ne_true
  · have hall : l.taken ++ (l.feed.data.items ++ [chunk]) = sentOn l.channel later := by
      rw [← List.append_assoc]
      exact h.whole hread
    exact ⟨h.held, fun _ _ => hfed, fun hover => absurd hover hopen,
      fun _ => (List.append_nil _).trans hall, hall ▸ List.prefix_refl _⟩
  · exact h

/-- A block of data comes and is offered. -/
theorem offers {feed : Feed} {rest : Option Chunk} {chunk : Chunk} (h : l.Keeps later [])
    (hoffer : l.feed.offer chunk = (feed, rest)) :
    Keeps { l with feed } (later ++ [.data l.channel chunk]) rest.toList := by
  by_cases hover : Over l.channel later
  · have hlost : l.feed.offer chunk = (l.feed, none) := by
      simp [Feed.offer, Queue.push, (h.unfed hover).1]
    obtain ⟨rfl, rfl⟩ := Prod.mk.inj (hlost.symm.trans hoffer)
    exact h.disregards hover chunk
  · exact (h.arrives hover chunk).offersAgain hoffer

/-- The data of the channel ends, or the channel does. -/
theorem finishes {feed : Feed} {held : Bool} (h : l.Keeps later [])
    (hends : ends l.channel event = true) (hnone : chunk? l.channel event = none)
    (hdata : feed.data = l.feed.data.finish)
    (hheld : held = true ↔ ¬ Released l.channel (later ++ [event])) :
    Keeps { l with feed, held } (later ++ [event]) [] where
  held := hheld
  fed := fun hnot => absurd (over_concat.mpr (.inr hends)) hnot
  unfed := fun _ => ⟨by rw [hdata]; rfl, rfl⟩
  whole := by
    rw [hdata, sentOn_of_none hnone]
    exact h.whole
  part := by
    rw [hdata, sentOn_of_none hnone]
    exact h.part

/-- The relay reads. -/
theorem takes (h : l.Keeps later waiting) : l.takeData.Keeps later waiting := by
  have hall {q : Queue Chunk} {chunk : Chunk} (htake : l.feed.data.take = (q, .item chunk)) :
      l.taken ++ [chunk] ++ q.items = l.taken ++ l.feed.data.items := by
    rw [Queue.take_item htake]
    simp
  rcases htake : l.feed.data.take with ⟨q, chunk | - | -⟩
  · have hline : l.takeData =
        { l with feed := { l.feed with data := q }, taken := l.taken ++ [chunk] } := by
      simp only [Line.takeData, Feed.takeData, htake]
    obtain ⟨hfed, hread⟩ := Queue.take_keeps htake
    rw [hline]
    exact {
      held := h.held
      fed := by
        rw [hfed, hread]
        exact h.fed
      unfed := by
        rw [hfed]
        exact h.unfed
      whole := by
        rw [hread, hall htake]
        exact h.whole
      part := by
        rw [hall htake]
        exact h.part }
  all_goals
    have hline : l.takeData = { l with feed := { l.feed with data := q } } := by
      simp only [Line.takeData, Feed.takeData, htake]
    have hq : q = l.feed.data := by
      unfold Queue.take at htake
      split at htake <;> simp_all
    rw [hline, hq]
    exact h

/-- The relay leaves. -/
theorem leaves (h : l.Keeps later waiting) :
    Keeps { l with feed := l.feed.abandonData } later waiting where
  held := h.held
  fed := nofun
  unfed := h.unfed
  whole := nofun
  part := by
    show l.taken ++ [] <+: _
    rw [List.append_nil]
    exact (List.prefix_append _ _).trans h.part

/-- Something happens to the queue of requests. -/
theorem of_data {feed : Feed} (h : l.Keeps later waiting) (hdata : feed.data = l.feed.data) :
    Keeps { l with feed } later waiting where
  held := h.held
  fed := by
    rw [hdata]
    exact h.fed
  unfed := by
    rw [hdata]
    exact h.unfed
  whole := by
    rw [hdata]
    exact h.whole
  part := by
    rw [hdata]
    exact h.part

end Keeps

end Line

end Gatehouse.Bastion
