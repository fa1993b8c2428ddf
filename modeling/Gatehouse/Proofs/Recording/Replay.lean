import Gatehouse.Recording.Frame
import Mathlib.Algebra.Group.Nat.Defs
import Mathlib.Tactic.Common

/-!
# A recording is replayed

`recording_replays`: the frames of any records, one after the other, are read back as these records, each
under a header that tells its time and its length, and nothing is left over. A header is read from the first
twelve bytes of a byte string, whatever they are, and written as these.

Proof. A word of four bytes and the number that it holds determine each other (`ofWord_word`,
`word_ofWord`), so that a header is read from its own bytes alone. The length that it then gives is where the
next frame starts (`replay_frame`), whatever bytes the payload has.
-/

namespace Gatehouse

/-! ### Words -/

namespace Bytes

theorem ofLittleEndian_lt (bytes : Bytes) : ofLittleEndian bytes < 256 ^ bytes.length := by
  induction bytes with
  | nil => simp [ofLittleEndian]
  | cons b bytes ih =>
    have hb := b.toNat_lt
    rw [ofLittleEndian, List.length_cons, Nat.pow_succ]
    omega

/-- Bytes are written again as they were read. -/
theorem littleEndian_ofLittleEndian (bytes : Bytes) :
    littleEndian bytes.length (ofLittleEndian bytes) = bytes := by
  induction bytes with
  | nil => rfl
  | cons b bytes ih =>
    have hb := b.toNat_lt
    rw [ofLittleEndian, List.length_cons, littleEndian, show (b.toNat + 256 * ofLittleEndian bytes) / 256 =
      ofLittleEndian bytes by omega, ih]
    congr 1
    apply UInt8.toNat_inj.mp
    rw [UInt8.toNat_ofNat']
    omega

end Bytes

namespace Recording

open Time (Unix)

namespace Header

@[simp] theorem length_word (n : Int32) : (word n).length = 4 := by simp [word]

theorem ofWord_word (n : Int32) : ofWord (word n) = n := by
  have hlt := n.toUInt32.toNat_lt
  rw [ofWord, word, Bytes.ofLittleEndian_littleEndian, Nat.mod_eq_of_lt hlt, ← UInt32.toInt32_ofNat',
    UInt32.ofNat_toNat, Int32.toInt32_toUInt32]

theorem word_ofWord {bytes : Bytes} (h : bytes.length = 4) : word (ofWord bytes) = bytes := by
  have hlt : Bytes.ofLittleEndian bytes < 2 ^ 32 := by
    have hbytes := Bytes.ofLittleEndian_lt bytes
    rw [h] at hbytes
    exact hbytes
  rw [ofWord, word, Int32.toUInt32_ofNat', UInt32.toNat_ofNat', Nat.mod_eq_of_lt hlt, ← h,
    Bytes.littleEndian_ofLittleEndian]

@[simp] theorem length_encode (h : Header) : h.encode.length = size := by simp [encode, size]

/-- A header is read from its own bytes, whatever follows them. -/
theorem decode?_encode (h : Header) (rest : Bytes) : decode? (h.encode ++ rest) = some h := by
  have hlong : ¬(h.encode ++ rest).length < size := by simp
  have hsec : (h.encode ++ rest).take 4 = word h.sec := by
    rw [encode, List.append_assoc, List.append_assoc, List.take_left' (length_word _)]
  have husec : ((h.encode ++ rest).drop 4).take 4 = word h.usec := by
    rw [encode, List.append_assoc, List.append_assoc, List.drop_left' (length_word _),
      List.take_left' (length_word _)]
  have hlen : ((h.encode ++ rest).drop 8).take 4 = word h.len := by
    rw [encode, List.append_assoc, List.drop_left' (by simp), List.take_left' (length_word _)]
  rw [decode?, if_neg hlong, hsec, husec, hlen, ofWord_word, ofWord_word, ofWord_word]

theorem decode?_eq_none {bytes : Bytes} (h : bytes.length < size) : decode? bytes = none := by
  rw [decode?, if_pos h]

/-- Any twelve bytes are a header, which is written as they are. -/
theorem encode_decode? {bytes : Bytes} (h : size ≤ bytes.length) :
    (decode? bytes).map encode = some (bytes.take size) := by
  have h12 : 12 ≤ bytes.length := h
  rw [decode?, if_neg (by omega), Option.map_some, encode, word_ofWord, word_ofWord, word_ofWord]
  · have hsplit : bytes.take 12 = bytes.take 4 ++ (bytes.drop 4).take 4 ++ (bytes.drop 8).take 4 := by
      rw [show 12 = 4 + 4 + 4 from rfl, List.take_add, List.take_add]
    rw [← hsplit, size]
  all_goals simp only [List.length_take, List.length_drop]; omega

/-! ### The time and the length -/

/-- The nanoseconds since 1970. A time before counts as 1970. -/
def sinceEpoch (t : Unix) : Nat :=
  (t.seconds * 1000000000 + t.nanos).toNat

/-- What a header tells of its frame: the whole seconds since 1970 as a signed word that wraps, the whole
microseconds within the second, and the length of the payload. -/
structure Tells (h : Header) (t : Unix) (length : Nat) : Prop where
  sec : h.sec.toInt = Int.bmod ↑(sinceEpoch t / 1000000000) (2 ^ 32)
  usec : h.usec.toInt = ↑(sinceEpoch t % 1000000000 / 1000)
  len : h.len.toInt = ↑length

theorem ofTime_eq (t : Unix) (length : Nat) :
    ofTime t length = ⟨Int32.ofNat (sinceEpoch t / 1000000000),
      Int32.ofNat (sinceEpoch t % 1000000000 / 1000), Int32.ofNat length⟩ := by
  unfold ofTime sinceEpoch Unix.carried
  dsimp only
  split_ifs with hbefore
  · have hzero : (t.seconds * 1000000000 + t.nanos).toNat = 0 := by omega
    rw [hzero]
    rfl
  · congr 2 <;> omega

theorem ofTime_tells (t : Unix) {length : Nat} (h : length < 2 ^ 31) : (ofTime t length).Tells t length := by
  rw [ofTime_eq]
  refine ⟨Int32.toInt_ofNat', Int32.toInt_ofNat_of_lt ?_, Int32.toInt_ofNat_of_lt h⟩
  omega

end Header

/-! ### Frames -/

variable {t : Unix} {payload : Bytes}

/-- The bytes of some records as frames. -/
def frames (records : List (Unix × Bytes)) : Bytes :=
  records.flatMap fun r => frame r.1 r.2

@[simp] theorem length_frame (t : Unix) (payload : Bytes) :
    (frame t payload).length = Header.size + payload.length := by
  simp [frame]

theorem decode?_frame (t : Unix) (payload rest : Bytes) :
    Header.decode? (frame t payload ++ rest) = some (Header.ofTime t payload.length) := by
  rw [frame, List.append_assoc, Header.decode?_encode]

/-- A frame is read from its own bytes, whatever is in its payload and whatever follows. -/
theorem replay_frame (t : Unix) (h : payload.length < 2 ^ 31) (rest : Bytes) :
    replay (frame t payload ++ rest) =
      ((Header.ofTime t payload.length, payload) :: (replay rest).1, (replay rest).2) := by
  have hlen : (Header.ofTime t payload.length).len.toInt.toNat = payload.length := by
    rw [(Header.ofTime_tells t h).len, Int.toNat_natCast]
  have hdrop : (frame t payload ++ rest).drop (Header.size + payload.length) = rest :=
    List.drop_left' (length_frame t payload)
  have htake : ((frame t payload ++ rest).drop Header.size).take payload.length = payload := by
    rw [frame, List.append_assoc, List.drop_left' (Header.length_encode _), List.take_left]
  rw [replay, decode?_frame]
  dsimp only
  rw [hlen, if_neg (by simp), hdrop, htake]

@[simp] theorem replay_nil : replay [] = ([], []) := by
  rw [replay, Header.decode?_eq_none (by decide)]

theorem replay_frames_append {records : List (Unix × Bytes)} (h : ∀ r ∈ records, r.2.length < 2 ^ 31)
    (rest : Bytes) :
    replay (frames records ++ rest) =
      (records.map (fun r => (Header.ofTime r.1 r.2.length, r.2)) ++ (replay rest).1, (replay rest).2) := by
  induction records with
  | nil => rfl
  | cons r records ih =>
    rw [frames, List.flatMap_cons, List.append_assoc, replay_frame r.1 (h r List.mem_cons_self), ← frames,
      ih fun r hr => h r (List.mem_cons_of_mem _ hr)]
    rfl

/-- The frames of records whose payloads are shorter than two gigabytes are read back as these records, in
order and to the last byte, under headers that tell their times and lengths. A header is read from any twelve
bytes and written as they are, and fewer are no header. -/
theorem recording_replays (records : List (Unix × Bytes)) (h : ∀ r ∈ records, r.2.length < 2 ^ 31) :
    replay (records.flatMap fun r => frame r.1 r.2) =
      (records.map fun r => (Header.ofTime r.1 r.2.length, r.2), []) ∧
    (∀ r ∈ records, (Header.ofTime r.1 r.2.length).Tells r.1 r.2.length) ∧
    (∀ bytes : Bytes, Header.size ≤ bytes.length →
      (Header.decode? bytes).map Header.encode = some (bytes.take Header.size)) ∧
    (∀ bytes : Bytes, bytes.length < Header.size → Header.decode? bytes = none) := by
  refine ⟨?_, fun r hr => Header.ofTime_tells r.1 (h r hr), fun _ => Header.encode_decode?,
    fun _ => Header.decode?_eq_none⟩
  have hall := replay_frames_append h []
  rwa [replay_nil, List.append_nil, List.append_nil] at hall

/-- A frame inside a payload is read as payload, and a time before 1970 as 1970. -/
theorem recording_replays_nested :
    replay (frame ⟨-5, 0⟩ (frame ⟨0, 0⟩ [7]) ++ frame ⟨5000000000, 1999⟩ [8]) =
      ([(⟨0, 0, 13⟩, frame ⟨0, 0⟩ [7]), (⟨705032704, 1, 1⟩, [8])], []) := by
  have hall := (recording_replays [(⟨-5, 0⟩, frame ⟨0, 0⟩ [7]), (⟨5000000000, 1999⟩, [8])] (by decide)).1
  rw [List.flatMap_cons, List.flatMap_cons, List.flatMap_nil, List.append_nil] at hall
  exact hall

end Recording

end Gatehouse
