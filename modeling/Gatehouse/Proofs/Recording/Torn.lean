import Gatehouse.Proofs.Recording.Replay
import Gatehouse.Recording.Log
import Mathlib.Algebra.Order.BigOperators.Group.List
import Mathlib.Algebra.Order.Ring.Nat
import Mathlib.Tactic.Common

/-!
# A recording on a failing disk

`aligned_unless_written_past_tear`: the file of a recording consists of complete frames and at most one
incomplete frame at its end, and is replayed as these frames, as long as no byte is written after a frame of
which only a part has reached the file. The writer does not see to that: it goes on after a write that
failed. Of the patterns of failing writes, those that always leave such a file are the ones that write
nothing after a torn frame; `payload_read_as_header` is a recording that is misread.

Proof. Every write is the frame of the next record (`Traces.follow`), so that the file is the beginnings of
these frames one after the other. If all but the last of them are complete or empty, the file is aligned
(`aligned_of_attempts`). For the converse all records get one frame, longer than any part of it that is
written, whose first byte stands at no other place in it. Wherever this byte is in the file, a frame starts
there, so that every frame but the last has to be complete (`complete_of_marked`).
-/

namespace Gatehouse.Recording

open Time (Unix)

/-! ### The file of a run -/

namespace Attempt

/-- What was to be written. -/
def bytes : Attempt → Bytes
  | .written bytes | .failed bytes _ => bytes

/-- How many bytes have reached the file in a write that has failed. -/
def reached? : Attempt → Option Nat
  | .written _ => none
  | .failed _ reached => some reached

/-- A part of the bytes is in the file, but not all of them. -/
def IsTorn (a : Attempt) : Prop :=
  a.inFile ≠ [] ∧ a.inFile ≠ a.bytes

instance (a : Attempt) : Decidable a.IsTorn :=
  inferInstanceAs (Decidable (_ ∧ _))

theorem inFile_isPrefix (a : Attempt) : a.inFile <+: a.bytes := by
  cases a with
  | written bytes => exact List.prefix_refl _
  | failed bytes reached => exact List.take_prefix _ _

end Attempt

namespace Log

/-- What happens to the log of a session: a payload is recorded as a frame, or the writer takes a record
from the queue. -/
inductive Event where
  | recorded (t : Unix) (payload : Bytes)
  | wrote (outcome : WriteOutcome)
deriving DecidableEq

def Event.record? : Event → Option (Unix × Bytes)
  | .recorded t payload => if payload.isEmpty then none else some (t, payload)
  | .wrote _ => none

def follow (log : Log) : Event → Log
  | .recorded t payload => log.append (Stream.framed.record? t payload)
  | .wrote outcome => log.write outcome

/-- How the writes of a log have ended: which have failed, and after how many bytes. -/
def failures (log : Log) : List (Option Nat) :=
  log.attempts.map Attempt.reached?

/-- The log after some events. -/
def run (events : List Event) : Log :=
  events.foldl follow {}

/-- What has been recorded in some events. -/
def recordsOf (events : List Event) : List (Unix × Bytes) :=
  events.filterMap Event.record?

theorem recordsOf_cons (event : Event) (events : List Event) :
    recordsOf (event :: events) = event.record?.toList ++ recordsOf events := by
  unfold recordsOf
  cases hrecord : event.record? with
  | none => rw [List.filterMap_cons_none hrecord, Option.toList_none, List.nil_append]
  | some r => rw [List.filterMap_cons_some hrecord, Option.toList_some, List.singleton_append]

variable {log : Log} {records : List (Unix × Bytes)}

/-- What has been written and what waits are the frames of the records, in order. A log whose writer has
died takes no more of them. -/
structure Traces (log : Log) (records : List (Unix × Bytes)) : Prop where
  frames : log.attempts.map Attempt.bytes ++ log.queued <+: records.map fun r => frame r.1 r.2
  alive : log.alive = true →
    log.attempts.map Attempt.bytes ++ log.queued = records.map fun r => frame r.1 r.2
  dead : log.alive = false → log.queued = []

theorem record?_framed (t : Unix) (payload : Bytes) :
    Stream.framed.record? t payload = (Event.recorded t payload).record?.map fun r => frame r.1 r.2 := by
  unfold Stream.record? Event.record?
  dsimp only
  split_ifs
  · rfl
  · rfl

theorem Traces.append (h : log.Traces records) (record : Option (Unix × Bytes)) :
    (log.append (record.map fun r => frame r.1 r.2)).Traces (records ++ record.toList) := by
  cases record with
  | none =>
    rw [Option.toList_none, List.append_nil]
    exact h
  | some r =>
    rw [Option.map_some, Option.toList_some, Log.append]
    split_ifs with halive
    · have hall : log.attempts.map Attempt.bytes ++ (log.queued ++ [frame r.1 r.2]) =
          (records ++ [r]).map fun r => frame r.1 r.2 := by
        rw [← List.append_assoc, h.alive halive, List.map_append]
        rfl
      exact ⟨hall ▸ List.prefix_refl _, fun _ => hall, fun hdead => by simp [halive] at hdead⟩
    · refine ⟨?_, fun hcontra => absurd hcontra halive, h.dead⟩
      rw [List.map_append]
      exact h.frames.trans (List.prefix_append _ _)

/-- A write moves the oldest record of the queue to what has been written, and a writer that dies loses the
queue. -/
theorem Traces.write (h : log.Traces records) (outcome : WriteOutcome) :
    (log.write outcome).Traces records := by
  unfold Log.write
  split
  · exact h
  · next bytes rest hqueued =>
    have hmoved : (log.attempts.map Attempt.bytes ++ [bytes]) ++ rest =
        log.attempts.map Attempt.bytes ++ log.queued := by
      rw [hqueued, List.append_assoc]
      rfl
    have hlives : log.alive = true := by
      by_contra hdead
      rw [h.dead (Bool.eq_false_iff.mpr hdead)] at hqueued
      cases hqueued
    have hkept (a : Attempt) (ha : a.bytes = bytes) :
        { log with queued := rest, attempts := log.attempts ++ [a] }.Traces records := by
      have hmap : (log.attempts ++ [a]).map Attempt.bytes ++ rest =
          log.attempts.map Attempt.bytes ++ log.queued := by
        rw [List.map_append, List.map_singleton, ha, hmoved]
      exact ⟨hmap ▸ h.frames, fun _ => hmap ▸ h.alive hlives, fun hdead => by simp [hlives] at hdead⟩
    cases outcome with
    | written => exact hkept (.written bytes) rfl
    | failed reached => exact hkept (.failed bytes reached) rfl
    | crashed =>
      refine ⟨?_, fun hcontra => by simp at hcontra, fun _ => rfl⟩
      rw [List.append_nil]
      exact (List.prefix_append _ _).trans h.frames

theorem Traces.follow (h : log.Traces records) (event : Event) :
    (log.follow event).Traces (records ++ event.record?.toList) := by
  cases event with
  | recorded t payload =>
    rw [Log.follow, record?_framed]
    exact h.append _
  | wrote outcome =>
    rw [Log.follow, Event.record?, Option.toList_none, List.append_nil]
    exact h.write outcome

theorem Traces.foldl (events : List Event) : ∀ {log : Log} {records : List (Unix × Bytes)},
    log.Traces records → (events.foldl Log.follow log).Traces (records ++ recordsOf events) := by
  induction events with
  | nil =>
    intro log records h
    rw [recordsOf, List.filterMap_nil, List.append_nil]
    exact h
  | cons event events ih =>
    intro log records h
    have hnext := ih (h.follow event)
    rwa [List.append_assoc, ← recordsOf_cons] at hnext

theorem run_traces (events : List Event) : (run events).Traces (recordsOf events) := by
  have hinit : ({} : Log).Traces [] := ⟨List.prefix_refl _, fun _ => rfl, fun _ => rfl⟩
  have hrun := hinit.foldl events
  rwa [List.nil_append] at hrun

end Log

/-! ### Aligned recordings -/

/-- The bytes are complete frames of some of the records, in order, and at the end at most a part of one more
frame. -/
inductive Aligned (records : List (Unix × Bytes)) : Bytes → Prop where
  | complete {whole : List (Unix × Bytes)} (h : whole.Sublist records) : Aligned records (frames whole)
  | cut {whole : List (Unix × Bytes)} {r : Unix × Bytes} {part : Bytes}
      (h : (whole ++ [r]).Sublist records) (hpart : part <+: frame r.1 r.2) (hne : part ≠ frame r.1 r.2) :
      Aligned records (frames whole ++ part)

variable {records : List (Unix × Bytes)} {bytes : Bytes}

theorem Aligned.skip (h : Aligned records bytes) (r : Unix × Bytes) : Aligned (r :: records) bytes := by
  cases h with
  | complete h => exact .complete (h.cons r)
  | cut h hpart hne => exact .cut (h.cons r) hpart hne

theorem Aligned.cons (h : Aligned records bytes) (r : Unix × Bytes) :
    Aligned (r :: records) (frame r.1 r.2 ++ bytes) := by
  cases h with
  | complete h => exact .complete (h.cons_cons r)
  | @cut whole last part h hpart hne =>
    have hwhole : (r :: whole ++ [last]).Sublist (r :: records) := h.cons_cons r
    rw [← List.append_assoc]
    exact .cut hwhole hpart hne

theorem aligned_of_attempts {attempts : List Attempt} :
    ∀ {records : List (Unix × Bytes)},
      attempts.map Attempt.bytes <+: records.map (fun r => frame r.1 r.2) →
      attempts.Pairwise (fun a b => a.IsTorn → b.inFile = []) →
      Aligned records (attempts.flatMap Attempt.inFile) := by
  induction attempts with
  | nil => intro records _ _; exact .complete (List.nil_sublist records)
  | cons a attempts ih =>
    intro records hframes hpairs
    cases records with
    | nil => simp at hframes
    | cons r records =>
      rw [List.map_cons, List.map_cons, List.cons_prefix_cons] at hframes
      obtain ⟨hbytes, hframes⟩ := hframes
      obtain ⟨hlater, hpairs⟩ := List.pairwise_cons.mp hpairs
      have hrest := ih hframes hpairs
      rw [List.flatMap_cons]
      by_cases hall : a.inFile = a.bytes
      · rw [hall, hbytes]
        exact hrest.cons r
      · by_cases hnone : a.inFile = []
        · rw [hnone]
          exact hrest.skip r
        · have hempty : attempts.flatMap Attempt.inFile = [] :=
            List.flatMap_eq_nil_iff.mpr fun b hb => hlater b hb ⟨hnone, hall⟩
          rw [hempty, List.append_nil]
          have hfirst : ([] ++ [r]).Sublist (r :: records) := (List.nil_sublist records).cons_cons r
          exact .cut hfirst (hbytes ▸ a.inFile_isPrefix) (hbytes ▸ hall)

theorem aligned_of_run (events : List Log.Event)
    (h : (Log.run events).attempts.Pairwise fun a b => a.IsTorn → b.inFile = []) :
    Aligned (Log.recordsOf events) (Log.run events).file :=
  aligned_of_attempts ((List.prefix_append _ _).trans (Log.run_traces events).frames) h

/-- A part of a frame holds no frame. -/
theorem replay_part {t : Unix} {payload part : Bytes} (hlength : payload.length < 2 ^ 31)
    (h : part <+: frame t payload) (hne : part ≠ frame t payload) : replay part = ([], part) := by
  have hshort : part.length < Header.size + payload.length := by
    have hle := h.length_le
    rw [length_frame] at hle
    refine Nat.lt_of_le_of_ne hle fun heq => hne (h.eq_of_length ?_)
    rw [heq, length_frame]
  rw [replay]
  by_cases hheader : part.length < Header.size
  · rw [Header.decode?_eq_none hheader]
  · -- The header is there, and tells of a longer payload.
    have hdecode : Header.decode? part = some (Header.ofTime t payload.length) := by
      obtain ⟨rest, hrest⟩ := h
      obtain ⟨header, hsome, hencode⟩ :=
        Option.map_eq_some_iff.mp (Header.encode_decode? (Nat.le_of_not_lt hheader))
      have hframe := decode?_frame t payload []
      rw [List.append_nil, ← hrest, ← List.take_append_drop Header.size part, ← hencode,
        List.append_assoc, Header.decode?_encode] at hframe
      rw [hsome, hframe]
    rw [hdecode]
    dsimp only
    rw [(Header.ofTime_tells t hlength).len, Int.toNat_natCast, if_pos hshort]

/-- An aligned recording is replayed as the frames that are complete, and a part at the end is left over. -/
theorem Aligned.replays (h : Aligned records bytes) (hlength : ∀ r ∈ records, r.2.length < 2 ^ 31) :
    ∃ (whole : List (Unix × Bytes)) (part : Bytes), whole.Sublist records ∧
      replay bytes = (whole.map fun r => (Header.ofTime r.1 r.2.length, r.2), part) := by
  cases h with
  | @complete whole h =>
    refine ⟨whole, [], h, ?_⟩
    have hall := replay_frames_append (fun r hr => hlength r (h.subset hr)) []
    rwa [replay_nil, List.append_nil, List.append_nil] at hall
  | @cut whole r part h hpart hne =>
    refine ⟨whole, part, (List.sublist_append_left whole [r]).trans h, ?_⟩
    have hr : r ∈ records := h.subset (List.mem_append_right _ (List.mem_singleton_self r))
    rw [replay_frames_append fun r hr => hlength r (h.subset (List.mem_append_left _ hr)),
      replay_part (hlength r hr) hpart hne, List.append_nil]

/-! ### Torn frames -/

/-- A pattern of writes, of which some fail after so many bytes: nothing is written after a torn frame. -/
def StopsAtTear (failures : List (Option Nat)) : Prop :=
  failures.Pairwise fun earlier later => 0 < earlier.getD 0 → later = some 0

instance : DecidablePred StopsAtTear :=
  fun failures => inferInstanceAs (Decidable (failures.Pairwise _))

theorem Attempt.inFile_of_reached?_zero {a : Attempt} (h : a.reached? = some 0) : a.inFile = [] := by
  cases a with
  | written => cases h
  | failed bytes reached =>
    cases h
    rfl

theorem Attempt.reached_of_isTorn {a : Attempt} (h : a.IsTorn) : 0 < a.reached?.getD 0 := by
  cases a with
  | written => exact absurd rfl h.2
  | failed bytes reached =>
    refine Nat.pos_of_ne_zero fun hzero => h.1 ?_
    obtain rfl : reached = 0 := hzero
    rfl

theorem pairwise_of_stopsAtTear {log : Log} (h : StopsAtTear log.failures) :
    log.attempts.Pairwise fun a b => a.IsTorn → b.inFile = [] :=
  (List.pairwise_map.mp h).imp fun hstop htorn =>
    Attempt.inFile_of_reached?_zero (hstop (Attempt.reached_of_isTorn htorn))

/-- A write that ends as a pattern has it. -/
def Attempt.ofReached (bytes : Bytes) (failure : Option Nat) : Attempt :=
  failure.elim (.written bytes) (.failed bytes)

theorem Attempt.reached?_ofReached (bytes : Bytes) (failure : Option Nat) :
    (Attempt.ofReached bytes failure).reached? = failure := by
  cases failure with
  | none => rfl
  | some k => rfl

theorem Attempt.bytes_ofReached (bytes : Bytes) (failure : Option Nat) :
    (Attempt.ofReached bytes failure).bytes = bytes := by
  cases failure with
  | none => rfl
  | some k => rfl

/-! #### Frames with a mark -/

section Marked

variable {mark : UInt8} {tail : Bytes}

theorem head_of_marked {pieces : List Bytes} (hpieces : ∀ p ∈ pieces, p <+: mark :: tail)
    {q : Bytes} (hq : q ∈ pieces) (hsome : q ≠ []) : ∃ rest, pieces.flatten = mark :: rest := by
  cases hflatten : pieces.flatten with
  | nil => exact absurd (List.flatten_eq_nil_iff.mp hflatten q hq) hsome
  | cons b rest =>
    obtain ⟨before, p, after, rfl, -, -⟩ := List.flatten_eq_cons_iff.mp hflatten
    have hp := hpieces (b :: p) (List.mem_append_right _ List.mem_cons_self)
    exact ⟨rest, by rw [(List.cons_prefix_cons.mp hp).1]⟩

/-- A mark that follows a part which is cut stands inside the whole. -/
theorem mem_of_cut {p rest part : Bytes} (hbegins : p <+: tail) (hcut : p ≠ tail)
    (hpart : part <+: mark :: tail) {n : Nat}
    (h : mark :: p ++ mark :: rest = (List.replicate n (mark :: tail)).flatten ++ part) : mark ∈ tail := by
  have hstart : p ++ [mark] <+: p ++ mark :: rest := ⟨rest, by simp⟩
  have hinside : p ++ [mark] <+: tail := by
    cases n with
    | zero =>
      rw [List.replicate_zero, List.flatten_nil, List.nil_append] at h
      rw [← h, List.cons_append, List.cons_prefix_cons] at hpart
      exact hstart.trans hpart.2
    | succ n =>
      rw [List.replicate_succ, List.flatten_cons, List.append_assoc, List.cons_append,
        List.cons_append] at h
      refine List.prefix_of_prefix_length_le hstart ((List.cons.inj h).2 ▸ List.prefix_append _ _) ?_
      rw [List.length_append, List.length_singleton]
      exact Nat.lt_of_le_of_ne hbegins.length_le fun heq => hcut (hbegins.eq_of_length heq)
  exact hinside.subset (List.mem_append_right _ (List.mem_singleton_self mark))

/-- Parts of a byte string whose first byte stands at no other place in it. If together they are copies of
the whole and a rest that is shorter, then a part that is cut is the last one, up to empty ones. -/
theorem complete_of_marked (hmark : mark ∉ tail) {part : Bytes} (hpart : part <+: mark :: tail)
    (hne : part ≠ mark :: tail) {pieces : List Bytes} :
    ∀ {n : Nat}, (∀ p ∈ pieces, p <+: mark :: tail) →
      pieces.flatten = (List.replicate n (mark :: tail)).flatten ++ part →
      pieces.Pairwise fun p q => p ≠ [] ∧ p ≠ mark :: tail → q = [] := by
  induction pieces with
  | nil => intros; exact List.Pairwise.nil
  | cons p pieces ih =>
    intro n hpieces hflatten
    have hlater : ∀ q ∈ pieces, q <+: mark :: tail := fun q hq => hpieces q (List.mem_cons_of_mem _ hq)
    rw [List.flatten_cons] at hflatten
    rcases List.prefix_cons_iff.mp (hpieces p List.mem_cons_self) with rfl | ⟨p, rfl, hbegins⟩
    · exact List.pairwise_cons.mpr ⟨fun q _ htorn => absurd rfl htorn.1, ih hlater hflatten⟩
    by_cases hall : p = tail
    · subst hall
      refine List.pairwise_cons.mpr ⟨fun q _ htorn => absurd rfl htorn.2, ?_⟩
      cases n with
      | zero =>
        refine absurd (hpart.eq_of_length_le ?_) hne
        rw [List.replicate_zero, List.flatten_nil, List.nil_append] at hflatten
        rw [← hflatten, List.length_append]
        exact Nat.le_add_right _ _
      | succ n =>
        rw [List.replicate_succ, List.flatten_cons, List.append_assoc] at hflatten
        exact ih hlater (List.append_cancel_left hflatten)
    · have hempty : ∀ q ∈ pieces, q = [] := by
        intro q hq
        by_contra hsome
        obtain ⟨rest, hrest⟩ := head_of_marked hlater hq hsome
        rw [hrest] at hflatten
        exact hmark (mem_of_cut hbegins hall hpart hflatten)
      refine List.pairwise_cons.mpr ⟨fun q hq _ => hempty q hq, ?_⟩
      exact List.pairwise_of_forall_mem_list fun a _ b hb _ => hempty b hb

theorem stopsAtTear_of_marked (hmark : mark ∉ tail) {failures : List (Option Nat)}
    (hlong : ∀ k, some k ∈ failures → k < (mark :: tail).length) {n : Nat} {part : Bytes}
    (hpart : part <+: mark :: tail) (hne : part ≠ mark :: tail)
    (hfile : failures.flatMap (fun failure => (Attempt.ofReached (mark :: tail) failure).inFile) =
      (List.replicate n (mark :: tail)).flatten ++ part) : StopsAtTear failures := by
  rw [List.flatMap_def] at hfile
  have hpairs := complete_of_marked hmark hpart hne (fun p hp => ?_) hfile
  · refine (List.pairwise_map.mp hpairs).imp_of_mem ?_
    intro earlier later hearlier _ hstop hreached
    cases earlier with
    | none => exact absurd hreached (Nat.lt_irrefl 0)
    | some k =>
      have hcut : (mark :: tail).take k ≠ [] ∧ (mark :: tail).take k ≠ mark :: tail := by
        constructor
        · simpa using Nat.ne_of_gt hreached
        · intro heq
          have hlength := congrArg List.length heq
          rw [List.length_take, Nat.min_eq_left (Nat.le_of_lt (hlong _ hearlier))] at hlength
          exact Nat.ne_of_lt (hlong _ hearlier) hlength
      have hempty := hstop hcut
      cases later with
      | none => cases hempty
      | some j =>
        rcases List.take_eq_nil_iff.mp hempty with rfl | hnil
        · rfl
        · cases hnil
  · obtain ⟨failure, -, rfl⟩ := List.mem_map.mp hp
    have hbegins := (Attempt.ofReached (mark :: tail) failure).inFile_isPrefix
    rwa [Attempt.bytes_ofReached] at hbegins

end Marked

/-- No byte of a power of two has all bits set, and none of zero. -/
theorem mark_not_mem_littleEndian {width n : Nat} (h : n = 0 ∨ ∃ e, n = 2 ^ e) :
    255 ∉ Bytes.littleEndian width n := by
  induction width generalizing n with
  | zero => simp [Bytes.littleEndian]
  | succ width ih =>
    have hbyte : (255 : UInt8) ≠ UInt8.ofNat n ∧ (n / 256 = 0 ∨ ∃ e, n / 256 = 2 ^ e) := by
      rcases h with rfl | ⟨e, rfl⟩
      · exact ⟨by decide, .inl rfl⟩
      · by_cases hsmall : e < 8
        · have hbits : ∀ e < 8, (255 : UInt8) ≠ UInt8.ofNat (2 ^ e) ∧ 2 ^ e / 256 = 0 := by decide
          exact ⟨(hbits e hsmall).1, .inl (hbits e hsmall).2⟩
        · obtain ⟨e, rfl⟩ := Nat.exists_eq_add_of_le (Nat.le_of_not_lt hsmall)
          have hshift : 2 ^ (8 + e) = 256 * 2 ^ e := Nat.pow_add 2 8 e
          refine ⟨fun heq => ?_, .inr ⟨e, by omega⟩⟩
          have hnat := congrArg UInt8.toNat heq
          rw [UInt8.toNat_ofNat', show (255 : UInt8).toNat = 255 from rfl] at hnat
          omega
    rw [Bytes.littleEndian, List.mem_cons, not_or]
    exact ⟨hbyte.1, ih hbyte.2⟩

/-- A frame whose first byte stands at no other place in it. -/
theorem frame_marked (e : Nat) :
    ∃ tail, frame ⟨255, 0⟩ (List.replicate (2 ^ e) 0) = 255 :: tail ∧ 255 ∉ tail := by
  have hlen : 255 ∉ Header.word (Int32.ofNat (2 ^ e)) := by
    rw [Header.word, Int32.toUInt32_ofNat', UInt32.toNat_ofNat']
    refine mark_not_mem_littleEndian ?_
    by_cases hsmall : e < 32
    · exact .inr ⟨e, Nat.mod_eq_of_lt (Nat.pow_lt_pow_right (by decide) hsmall)⟩
    · exact .inl (Nat.mod_eq_zero_of_dvd (Nat.pow_dvd_pow 2 (Nat.le_of_not_lt hsmall)))
  refine ⟨[0, 0, 0] ++ Header.word 0 ++ Header.word (Int32.ofNat (2 ^ e)) ++ List.replicate (2 ^ e) 0,
    ?_, ?_⟩
  · have hsec : Header.word (Int32.ofNat (Header.sinceEpoch ⟨255, 0⟩ / 1000000000)) = [255, 0, 0, 0] := by
      decide
    have husec : Header.word (Int32.ofNat (Header.sinceEpoch ⟨255, 0⟩ % 1000000000 / 1000)) =
        Header.word 0 := by decide
    rw [frame, Header.ofTime_eq, List.length_replicate, Header.encode, hsec, husec]
    rfl
  · simp only [List.mem_append, not_or]
    refine ⟨⟨⟨by decide, by decide⟩, hlen⟩, fun hmem => ?_⟩
    exact absurd (List.eq_of_mem_replicate hmem) (by decide)

/-! #### A run for every pattern -/

/-- One record for every write of a pattern, written at once. -/
def Log.eventsOf (r : Unix × Bytes) (failures : List (Option Nat)) : List Log.Event :=
  failures.flatMap fun failure => [.recorded r.1 r.2, .wrote (failure.elim .written .failed)]

theorem Log.attempts_eventsOf {r : Unix × Bytes} (hr : r.2.isEmpty = false) (failures : List (Option Nat)) :
    (run (eventsOf r failures)).attempts = failures.map (Attempt.ofReached (frame r.1 r.2)) := by
  have hstep : ∀ attempts : List Attempt,
      (eventsOf r failures).foldl follow { attempts := attempts } =
        { attempts := attempts ++ failures.map (Attempt.ofReached (frame r.1 r.2)) } := by
    induction failures with
    | nil => intro attempts; simp [eventsOf]
    | cons failure failures ih =>
      intro attempts
      have hwrite : (({ attempts := attempts } : Log).follow (.recorded r.1 r.2)).follow
          (.wrote (failure.elim .written .failed)) =
            { attempts := attempts ++ [Attempt.ofReached (frame r.1 r.2) failure] } := by
        rw [follow, follow, record?_framed, Event.record?, hr]
        cases failure with
        | none => rfl
        | some k => rfl
      rw [eventsOf, List.flatMap_cons, List.cons_append, List.singleton_append, List.foldl_cons,
        List.foldl_cons, hwrite, ← eventsOf, ih, List.map_cons, List.append_assoc, List.singleton_append]
  rw [run, show ({} : Log) = { attempts := [] } from rfl, hstep, List.nil_append]

theorem Log.eq_of_mem_recordsOf {r x : Unix × Bytes} {failures : List (Option Nat)}
    (h : x ∈ recordsOf (eventsOf r failures)) : x = r := by
  obtain ⟨event, hevent, hx⟩ := List.mem_filterMap.mp h
  obtain ⟨failure, -, hevent⟩ := List.mem_flatMap.mp hevent
  rcases List.mem_cons.mp hevent with rfl | hevent
  · rw [Event.record?] at hx
    split_ifs at hx
    exact (Option.some.inj hx).symm
  · rw [List.mem_singleton.mp hevent] at hx
    cases hx

theorem Aligned.of_same {r : Unix × Bytes} (h : Aligned records bytes) (hsame : ∀ x ∈ records, x = r) :
    ∃ (n : Nat) (part : Bytes), part <+: frame r.1 r.2 ∧ part ≠ frame r.1 r.2 ∧
      bytes = (List.replicate n (frame r.1 r.2)).flatten ++ part := by
  have hframes {whole : List (Unix × Bytes)} (hwhole : ∀ x ∈ whole, x = r) :
      frames whole = (List.replicate whole.length (frame r.1 r.2)).flatten := by
    rw [frames, List.flatMap_def, List.eq_replicate_iff.mpr ⟨rfl, hwhole⟩, List.map_replicate,
      List.length_replicate]
  cases h with
  | @complete whole h =>
    refine ⟨whole.length, [], List.nil_prefix, fun heq => ?_, ?_⟩
    · have hlength := congrArg List.length heq
      rw [length_frame, Header.size, List.length_nil] at hlength
      omega
    · rw [List.append_nil, hframes fun x hx => hsame x (h.subset hx)]
  | @cut whole last part h hpart hne =>
    obtain rfl : last = r := hsame last (h.subset (List.mem_append_right _ (List.mem_singleton_self last)))
    exact ⟨whole.length, part, hpart, hne,
      by rw [hframes fun x hx => hsame x (h.subset (List.mem_append_left _ hx))]⟩

/-- If every run with a pattern of writes leaves an aligned recording, nothing is written after a torn
frame. -/
theorem stopsAtTear_of_aligned {failures : List (Option Nat)}
    (h : ∀ events, (Log.run events).failures = failures →
      Aligned (Log.recordsOf events) (Log.run events).file) : StopsAtTear failures := by
  -- Longer than any part that is written.
  let e := (failures.map fun failure => failure.getD 0).sum
  let r : Unix × Bytes := (⟨255, 0⟩, List.replicate (2 ^ e) 0)
  have hlong : ∀ k, some k ∈ failures → k < (frame r.1 r.2).length := by
    intro k hk
    have hle : k ≤ e := List.le_sum_of_mem (List.mem_map.mpr ⟨some k, hk, rfl⟩)
    have hlt : k < 2 ^ e := Nat.lt_of_le_of_lt hle Nat.lt_two_pow_self
    rw [length_frame, List.length_replicate]
    omega
  have hsome : r.2.isEmpty = false := by simp [r]
  obtain ⟨tail, hframe, hmark⟩ := frame_marked e
  have hattempts := Log.attempts_eventsOf hsome failures
  have haligned := h (Log.eventsOf r failures) (by
    rw [Log.failures, hattempts, List.map_map]
    exact List.map_id'' (Attempt.reached?_ofReached _) failures)
  obtain ⟨n, part, hpart, hne, hfile⟩ := haligned.of_same fun x => Log.eq_of_mem_recordsOf
  rw [Log.file, hattempts, List.flatMap_map] at hfile
  rw [hframe] at hpart hne hfile hlong
  exact stopsAtTear_of_marked hmark hlong hpart hne hfile

/-! ### The file -/

/-- If no byte is written after a torn frame, the file holds complete frames of the records, in order, and at
the end at most a part of one more. From such a file exactly these frames are replayed. All runs whose writes
end in the same way leave such a file just if nothing is written after a torn frame. -/
theorem aligned_unless_written_past_tear (events : List Log.Event) :
    ((Log.run events).attempts.Pairwise (fun a b => a.IsTorn → b.inFile = []) →
      Aligned (Log.recordsOf events) (Log.run events).file) ∧
    (Aligned (Log.recordsOf events) (Log.run events).file →
      (∀ r ∈ Log.recordsOf events, r.2.length < 2 ^ 31) →
        ∃ (whole : List (Unix × Bytes)) (part : Bytes), whole.Sublist (Log.recordsOf events) ∧
          replay (Log.run events).file = (whole.map fun r => (Header.ofTime r.1 r.2.length, r.2), part)) ∧
    ((∀ others, (Log.run others).failures = (Log.run events).failures →
        Aligned (Log.recordsOf others) (Log.run others).file) ↔ StopsAtTear (Log.run events).failures) := by
  refine ⟨aligned_of_run events, fun h => h.replays, stopsAtTear_of_aligned, fun hstops others hsame => ?_⟩
  rw [← hsame] at hstops
  exact aligned_of_run others (pairwise_of_stopsAtTear hstops)

/-- A disk that fills up and stays full leaves an aligned recording, and one on which room is made again need
not. -/
theorem aligned_unless_written_past_tear_full_disk :
    Aligned [(⟨0, 0⟩, [7]), (⟨1, 0⟩, [8, 8]), (⟨2, 0⟩, [9])]
      (frame ⟨0, 0⟩ [7] ++ (frame ⟨1, 0⟩ [8, 8]).take 13) ∧
    (∃ (whole : List (Unix × Bytes)) (part : Bytes),
      whole.Sublist [(⟨0, 0⟩, [7]), (⟨1, 0⟩, [8, 8]), (⟨2, 0⟩, [9])] ∧
        replay (frame ⟨0, 0⟩ [7] ++ (frame ⟨1, 0⟩ [8, 8]).take 13) =
          (whole.map fun r => (Header.ofTime r.1 r.2.length, r.2), part)) ∧
    ¬∀ events, (Log.run events).failures = [some 13, none] →
      Aligned (Log.recordsOf events) (Log.run events).file := by
  obtain ⟨haligned, hreplays, -⟩ := aligned_unless_written_past_tear [.recorded ⟨0, 0⟩ [7], .wrote .written,
    .recorded ⟨1, 0⟩ [8, 8], .wrote (.failed 13), .recorded ⟨2, 0⟩ [9], .wrote (.failed 0)]
  have hfull := haligned (by decide)
  refine ⟨hfull, hreplays hfull (by decide), fun hroom => ?_⟩
  have hpattern := aligned_unless_written_past_tear [.recorded ⟨0, 0⟩ [7], .wrote (.failed 13),
    .recorded ⟨1, 0⟩ [8], .wrote .written]
  exact absurd (hpattern.2.2.mp hroom) (by decide)

/-- The disk is full after the first byte of a payload, and room is made before the next record: the header of
the next record is read as payload, and its payload as a header. -/
theorem payload_read_as_header :
    let events : List Log.Event := [.recorded ⟨0, 0⟩ [97, 98, 99], .wrote (.failed 13),
      .recorded ⟨0, 0⟩ [0, 0], .wrote .written]
    ¬Aligned (Log.recordsOf events) (Log.run events).file ∧
      replay (Log.run events).file = ([(⟨0, 0, 3⟩, [97, 0, 0]), (⟨0, 131072, 0⟩, [])], []) := by
  intro events
  have hfile : (Log.run events).file = frames [(⟨0, 0⟩, [97, 0, 0]), (⟨0, 131072000⟩, [])] ++ [] := by decide
  have hreplay : replay (Log.run events).file = ([(⟨0, 0, 3⟩, [97, 0, 0]), (⟨0, 131072, 0⟩, [])], []) := by
    rw [hfile, replay_frames_append (by decide), replay_nil]
    decide
  refine ⟨fun haligned => ?_, hreplay⟩
  obtain ⟨whole, part, hwhole, hread⟩ := haligned.replays (by decide)
  have hpayloads : whole.map Prod.snd = [[97, 0, 0], []] := by
    rw [hreplay] at hread
    have hsnd := congrArg (fun read => read.1.map Prod.snd) hread
    rw [List.map_map] at hsnd
    exact hsnd.symm
  have hmem : [97, 0, 0] ∈ (Log.recordsOf events).map Prod.snd :=
    (hwhole.map Prod.snd).subset (hpayloads ▸ List.mem_cons_self)
  exact absurd hmem (by decide)

end Gatehouse.Recording
