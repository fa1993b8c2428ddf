import Gatehouse.Proofs.Text.Base64
import Gatehouse.Proofs.Text.ReadBack
import Mathlib.Data.List.TakeWhile
import Mathlib.Tactic.Common

/-!
# What lossy reading loses

`trim_ofUtf8Lossy_eq_iff`: bytes that are read lossily and trimmed give a word exactly if they are the
UTF-8 bytes of that word with white space around it.

Proof. Each step of the reader either takes a well-formed sequence (`Sequence`) or puts a replacement
character (`sequence_or_replaced`). The well-formed sequences are the UTF-8 writings of the characters
(`sequence_encode`, `Sequence.eq_encode`). A text without a replacement character has thus been read
from its own bytes, and from no others (`ofUtf8Lossy_eq_iff`).
-/

namespace Gatehouse.Text

open Bytes (toNat_ofNat_lt)
open String (utf8EncodeChar)

theorem utf8_ofList (cs : List Char) : utf8 (String.ofList cs) = cs.flatMap utf8EncodeChar := by
  rw [utf8, String.toUTF8, String.toByteArray_ofList, List.utf8Encode, List.data_toByteArray]

theorem length_utf8_le (s : String) : (utf8 s).length ≤ 4 * s.toList.length := by
  rw [← s.ofList_toList, utf8_ofList, String.toList_ofList]
  induction s.toList with
  | nil => exact Nat.le_refl 0
  | cons c cs ih =>
    have hsize : (utf8EncodeChar c).length ≤ 4 := by
      rw [String.length_utf8EncodeChar]
      exact c.utf8Size_le_four
    rw [List.flatMap_cons, List.length_append, List.length_cons]
    omega

/-! ### Lead bytes -/

/-- The demands of a lead byte, in numbers. -/
theorem leadOf_eq (b : UInt8) :
    Lead.of? b =
      if 0xC2 ≤ b.toNat ∧ b.toNat ≤ 0xDF then some ⟨1, 0x80, 0xBF, b.toNat % 32⟩
      else if b.toNat = 0xE0 then some ⟨2, 0xA0, 0xBF, 0⟩
      else if b.toNat = 0xED then some ⟨2, 0x80, 0x9F, 13⟩
      else if 0xE1 ≤ b.toNat ∧ b.toNat ≤ 0xEF then some ⟨2, 0x80, 0xBF, b.toNat % 16⟩
      else if b.toNat = 0xF0 then some ⟨3, 0x90, 0xBF, 0⟩
      else if 0xF1 ≤ b.toNat ∧ b.toNat ≤ 0xF3 then some ⟨3, 0x80, 0xBF, b.toNat % 8⟩
      else if b.toNat = 0xF4 then some ⟨3, 0x80, 0x8F, 4⟩
      else none := by
  simp only [Lead.of?, UInt8.le_iff_toNat_le, ← UInt8.toNat_inj]
  rfl

/-- A byte in a range. -/
def IsBetween (low high b : UInt8) : Prop :=
  low.toNat ≤ b.toNat ∧ b.toNat ≤ high.toNat

variable {b low high : UInt8} {n : Nat}

/-- What the ranges of a sequence of two bytes keep out: numbers that one byte would do for. -/
theorem leadOf_two (h : Lead.of? b = some ⟨1, low, high, n⟩) :
    b.toNat = 192 + n ∧ 2 ≤ n ∧ n < 32 ∧ low.toNat = 128 ∧ high.toNat = 191 := by
  rw [leadOf_eq] at h
  split_ifs at h <;> cases h
  refine ⟨?_, ?_, ?_, rfl, rfl⟩ <;> omega

/-- What the ranges of a sequence of three bytes keep out: numbers that two bytes would do for, and
those that are no characters. -/
theorem leadOf_three (h : Lead.of? b = some ⟨2, low, high, n⟩) :
    b.toNat = 224 + n ∧ (n = 0 ∧ low.toNat = 160 ∧ high.toNat = 191 ∨
      n = 13 ∧ low.toNat = 128 ∧ high.toNat = 159 ∨
      (0 < n ∧ n ≠ 13 ∧ n < 16) ∧ low.toNat = 128 ∧ high.toNat = 191) := by
  rw [leadOf_eq] at h
  split_ifs at h <;> cases h
  · exact ⟨by omega, .inl ⟨rfl, rfl, rfl⟩⟩
  · exact ⟨by omega, .inr (.inl ⟨rfl, rfl, rfl⟩)⟩
  · exact ⟨by omega, .inr (.inr ⟨by omega, rfl, rfl⟩)⟩

/-- What the ranges of a sequence of four bytes keep out: numbers that three bytes would do for, and
those that are too large. -/
theorem leadOf_four (h : Lead.of? b = some ⟨3, low, high, n⟩) :
    b.toNat = 240 + n ∧ (n = 0 ∧ low.toNat = 144 ∧ high.toNat = 191 ∨
      n = 4 ∧ low.toNat = 128 ∧ high.toNat = 143 ∨
      (0 < n ∧ n < 4) ∧ low.toNat = 128 ∧ high.toNat = 191) := by
  rw [leadOf_eq] at h
  split_ifs at h <;> cases h
  · exact ⟨by omega, .inl ⟨rfl, rfl, rfl⟩⟩
  · exact ⟨by omega, .inr (.inr ⟨by omega, rfl, rfl⟩)⟩
  · exact ⟨by omega, .inr (.inl ⟨rfl, rfl, rfl⟩)⟩

theorem exists_leadOf_two (hb : b.toNat = 192 + n) (hlow : 2 ≤ n) (hhigh : n < 32) :
    ∃ low high, Lead.of? b = some ⟨1, low, high, n⟩ := by
  rw [leadOf_eq, if_pos (by omega), hb, show (192 + n) % 32 = n by omega]
  exact ⟨_, _, rfl⟩

theorem exists_leadOf_three (hb : b.toNat = 224 + n) (hn : n < 16) :
    ∃ low high, Lead.of? b = some ⟨2, low, high, n⟩ := by
  rw [leadOf_eq, if_neg (by omega), hb, show (224 + n) % 16 = n by omega]
  by_cases hzero : n = 0
  · subst hzero
    exact ⟨_, _, rfl⟩
  rw [if_neg (by omega)]
  by_cases hthirteen : n = 13
  · subst hthirteen
    exact ⟨_, _, rfl⟩
  rw [if_neg (by omega), if_pos (by omega)]
  exact ⟨_, _, rfl⟩

theorem exists_leadOf_four (hb : b.toNat = 240 + n) (hn : n < 5) :
    ∃ low high, Lead.of? b = some ⟨3, low, high, n⟩ := by
  rw [leadOf_eq, if_neg (by omega), if_neg (by omega), if_neg (by omega), if_neg (by omega), hb]
  obtain rfl | rfl | ⟨hzero, hfour⟩ : n = 0 ∨ n = 4 ∨ n ≠ 0 ∧ n ≠ 4 := by omega
  · exact ⟨_, _, rfl⟩
  · exact ⟨_, _, rfl⟩
  rw [if_neg (by omega), if_pos (by omega), show (240 + n) % 8 = n by omega]
  exact ⟨_, _, rfl⟩

theorem following_cases {lead : Lead} (h : Lead.of? b = some lead) :
    lead.following = 1 ∨ lead.following = 2 ∨ lead.following = 3 := by
  rw [leadOf_eq] at h
  split_ifs at h <;> cases h <;> simp

/-! ### The bytes of a character -/

theorem continued_succ {bytes : Bytes} {bits used : Nat} {c : Char} :
    continued bytes (n + 1) low high bits = (some c, used) ↔
      ∃ b rest m, bytes = b :: rest ∧ IsBetween low high b ∧ used = m + 1 ∧
        continued rest n 0x80 0xBF (bits * 64 + b.toNat % 64) = (some c, m) := by
  rcases bytes with _ | ⟨b, rest⟩
  · simp [continued]
  · simp only [continued, UInt8.le_iff_toNat_le]
    rcases hmore : continued rest n 0x80 0xBF (bits * 64 + b.toNat % 64) with ⟨c', m⟩
    split_ifs with hfits
    · constructor
      · intro h
        cases h
        exact ⟨b, rest, m, rfl, hfits, rfl, hmore⟩
      · rintro ⟨b', rest', m', hbytes, -, rfl, h⟩
        cases hbytes
        rw [hmore] at h
        cases h
        rfl
    · constructor
      · intro h
        cases h
      · rintro ⟨b', rest', m', hbytes, hfits', -⟩
        cases hbytes
        exact absurd hfits' hfits

theorem continued_zero {bytes : Bytes} {bits used : Nat} {c : Char} :
    continued bytes 0 low high bits = (some c, used) ↔ c = Char.ofNat bits ∧ used = 0 := by
  simp [continued, eq_comm]

/-- A well-formed sequence, and the number of its character. -/
inductive Sequence : Bytes → Nat → Prop where
  | one {b : UInt8} : b.toNat < 0x80 → Sequence [b] b.toNat
  | two {b b₁ low high : UInt8} {n : Nat} : Lead.of? b = some ⟨1, low, high, n⟩ →
      IsBetween low high b₁ → Sequence [b, b₁] (n * 64 + b₁.toNat % 64)
  | three {b b₁ b₂ low high : UInt8} {n : Nat} : Lead.of? b = some ⟨2, low, high, n⟩ →
      IsBetween low high b₁ → IsBetween 0x80 0xBF b₂ →
      Sequence [b, b₁, b₂] ((n * 64 + b₁.toNat % 64) * 64 + b₂.toNat % 64)
  | four {b b₁ b₂ b₃ low high : UInt8} {n : Nat} : Lead.of? b = some ⟨3, low, high, n⟩ →
      IsBetween low high b₁ → IsBetween 0x80 0xBF b₂ → IsBetween 0x80 0xBF b₃ →
      Sequence [b, b₁, b₂, b₃]
        (((n * 64 + b₁.toNat % 64) * 64 + b₂.toNat % 64) * 64 + b₃.toNat % 64)

theorem Sequence.of_eq {s : Bytes} {v w : Nat} (h : Sequence s v) (hv : v = w) : Sequence s w :=
  hv ▸ h

theorem Sequence.isValidChar {s : Bytes} {v : Nat} (h : Sequence s v) : v.isValidChar := by
  unfold Nat.isValidChar
  cases h with
  | one h => omega
  | two hlead h₁ =>
    have hbits := leadOf_two hlead
    omega
  | three hlead h₁ _ =>
    have hbits := leadOf_three hlead
    unfold IsBetween at h₁
    omega
  | four hlead h₁ _ _ =>
    have hbits := leadOf_four hlead
    unfold IsBetween at h₁
    omega

theorem lossyChars_lead {lead : Lead} {rest : Bytes} {c : Option Char} {k : Nat}
    (hlead : Lead.of? b = some lead)
    (h : continued rest lead.following lead.low lead.high lead.bits = (c, k)) :
    lossyChars (b :: rest) = c.getD '\uFFFD' :: lossyChars (rest.drop k) := by
  have hnot : ¬ b < 0x80 := by
    intro hlt
    have hsmall : b.toNat < 128 := UInt8.lt_iff_toNat_lt.mp hlt
    rw [leadOf_eq] at hlead
    split_ifs at hlead <;> omega
  rw [lossyChars, if_neg hnot, hlead]
  simp only [h]

/-- A well-formed sequence is read as its character. -/
theorem lossyChars_sequence {s : Bytes} {v : Nat} (h : Sequence s v) (rest : Bytes) :
    lossyChars (s ++ rest) = Char.ofNat v :: lossyChars rest := by
  cases h with
  | @one b h =>
    rw [List.singleton_append, lossyChars, if_pos (UInt8.lt_iff_toNat_lt.mpr h)]
  | two hlead h₁ =>
    refine lossyChars_lead (c := some _) (k := 1) hlead ?_
    exact continued_succ.mpr ⟨_, _, _, rfl, h₁, rfl, continued_zero.mpr ⟨rfl, rfl⟩⟩
  | three hlead h₁ h₂ =>
    refine lossyChars_lead (c := some _) (k := 2) hlead ?_
    refine continued_succ.mpr ⟨_, _, _, rfl, h₁, rfl, ?_⟩
    exact continued_succ.mpr ⟨_, _, _, rfl, h₂, rfl, continued_zero.mpr ⟨rfl, rfl⟩⟩
  | four hlead h₁ h₂ h₃ =>
    refine lossyChars_lead (c := some _) (k := 3) hlead ?_
    refine continued_succ.mpr ⟨_, _, _, rfl, h₁, rfl, ?_⟩
    refine continued_succ.mpr ⟨_, _, _, rfl, h₂, rfl, ?_⟩
    exact continued_succ.mpr ⟨_, _, _, rfl, h₃, rfl, continued_zero.mpr ⟨rfl, rfl⟩⟩

/-- Bytes begin with a well-formed sequence, or else a replacement character is read first. -/
theorem sequence_or_replaced (b : UInt8) (bytes : Bytes) :
    (∃ s v rest, Sequence s v ∧ b :: bytes = s ++ rest) ∨
      ∃ rest, lossyChars (b :: bytes) = '\uFFFD' :: lossyChars rest := by
  by_cases hascii : b.toNat < 0x80
  · exact .inl ⟨[b], _, bytes, .one hascii, rfl⟩
  rcases hlead : Lead.of? b with _ | ⟨following, low, high, bits⟩
  · refine .inr ⟨bytes, ?_⟩
    rw [lossyChars, if_neg (mt UInt8.lt_iff_toNat_lt.mp hascii), hlead]
  rcases hmore : continued bytes following low high bits with ⟨_ | c, used⟩
  · exact .inr ⟨_, lossyChars_lead hlead hmore⟩
  left
  obtain rfl | rfl | rfl : following = 1 ∨ following = 2 ∨ following = 3 := following_cases hlead
  · obtain ⟨b₁, rest, m, rfl, h₁, -, -⟩ := continued_succ.mp hmore
    exact ⟨_, _, rest, .two hlead h₁, rfl⟩
  · obtain ⟨b₁, rest, m, rfl, h₁, -, hmore⟩ := continued_succ.mp hmore
    obtain ⟨b₂, rest, m, rfl, h₂, -, -⟩ := continued_succ.mp hmore
    exact ⟨_, _, rest, .three hlead h₁ h₂, rfl⟩
  · obtain ⟨b₁, rest, m, rfl, h₁, -, hmore⟩ := continued_succ.mp hmore
    obtain ⟨b₂, rest, m, rfl, h₂, -, hmore⟩ := continued_succ.mp hmore
    obtain ⟨b₃, rest, m, rfl, h₃, -, -⟩ := continued_succ.mp hmore
    exact ⟨_, _, rest, .four hlead h₁ h₂ h₃, rfl⟩

/-! ### Writing and reading -/

theorem eq_ofNat (h : n = b.toNat) : b = UInt8.ofNat n := by
  subst h
  simp

theorem isBetween_tail (hlow : 128 ≤ n) (hhigh : n ≤ 191) :
    IsBetween 0x80 0xBF (UInt8.ofNat n) := by
  rw [IsBetween, toNat_ofNat_lt (by omega)]
  exact ⟨hlow, hhigh⟩

/-- The well-formed sequence of a character is its UTF-8 writing. -/
theorem Sequence.eq_encode {s : Bytes} {v : Nat} (h : Sequence s v) :
    s = utf8EncodeChar (Char.ofNat v) := by
  have hv : (Char.ofNat v).val.toNat = v := by
    rw [Char.ofNat, dif_pos h.isValidChar]
    rfl
  unfold utf8EncodeChar
  rw [hv]
  cases h with
  | @one b h =>
    rw [if_pos (by omega)]
    simp
  | @two b b₁ low high n hlead h₁ =>
    have hbits := leadOf_two hlead
    unfold IsBetween at h₁
    rw [if_neg (by omega), if_pos (by omega)]
    simp only [List.cons.injEq, and_true]
    exact ⟨eq_ofNat (by omega), eq_ofNat (by omega)⟩
  | @three b b₁ b₂ low high n hlead h₁ h₂ =>
    have hbits := leadOf_three hlead
    unfold IsBetween at h₁
    have h₂ : 128 ≤ b₂.toNat ∧ b₂.toNat ≤ 191 := h₂
    rw [if_neg (by omega), if_neg (by omega), if_pos (by omega)]
    simp only [List.cons.injEq, and_true]
    exact ⟨eq_ofNat (by omega), eq_ofNat (by omega), eq_ofNat (by omega)⟩
  | @four b b₁ b₂ b₃ low high n hlead h₁ h₂ h₃ =>
    have hbits := leadOf_four hlead
    unfold IsBetween at h₁
    have h₂ : 128 ≤ b₂.toNat ∧ b₂.toNat ≤ 191 := h₂
    have h₃ : 128 ≤ b₃.toNat ∧ b₃.toNat ≤ 191 := h₃
    rw [if_neg (by omega), if_neg (by omega), if_neg (by omega)]
    simp only [List.cons.injEq, and_true]
    exact ⟨eq_ofNat (by omega), eq_ofNat (by omega), eq_ofNat (by omega), eq_ofNat (by omega)⟩

/-- The UTF-8 writing of a character is a well-formed sequence. -/
theorem sequence_encode (c : Char) : Sequence (utf8EncodeChar c) c.toNat := by
  have hvalid : c.toNat < 0xD800 ∨ 0xDFFF < c.toNat ∧ c.toNat < 0x110000 := c.valid
  have hval : c.val.toNat = c.toNat := rfl
  unfold utf8EncodeChar
  rw [hval]
  generalize c.toNat = v at hvalid
  dsimp only
  split_ifs with h₁ h₂ h₃
  · exact (Sequence.one (by rw [toNat_ofNat_lt] <;> omega)).of_eq (toNat_ofNat_lt (by omega))
  · obtain ⟨low, high, hlead⟩ := exists_leadOf_two (b := UInt8.ofNat (v / 64 % 32 + 192)) (n := v / 64)
      (by rw [toNat_ofNat_lt] <;> omega) (by omega) (by omega)
    have hbits := leadOf_two hlead
    refine (Sequence.two hlead ?_).of_eq ?_
    · rw [IsBetween, toNat_ofNat_lt (by omega)]
      omega
    · rw [toNat_ofNat_lt (by omega)]
      omega
  · obtain ⟨low, high, hlead⟩ := exists_leadOf_three (b := UInt8.ofNat (v / 4096 % 16 + 224))
      (n := v / 4096) (by rw [toNat_ofNat_lt] <;> omega) (by omega)
    have hbits := leadOf_three hlead
    refine (Sequence.three hlead ?_ ?_).of_eq ?_
    · rw [IsBetween, toNat_ofNat_lt (by omega)]
      omega
    · exact isBetween_tail (by omega) (by omega)
    · rw [toNat_ofNat_lt (by omega), toNat_ofNat_lt (by omega)]
      omega
  · obtain ⟨low, high, hlead⟩ := exists_leadOf_four (b := UInt8.ofNat (v / 262144 % 8 + 240))
      (n := v / 262144) (by rw [toNat_ofNat_lt] <;> omega) (by omega)
    have hbits := leadOf_four hlead
    refine (Sequence.four hlead ?_ ?_ ?_).of_eq ?_
    · rw [IsBetween, toNat_ofNat_lt (by omega)]
      omega
    · exact isBetween_tail (by omega) (by omega)
    · exact isBetween_tail (by omega) (by omega)
    · rw [toNat_ofNat_lt (by omega), toNat_ofNat_lt (by omega), toNat_ofNat_lt (by omega)]
      omega

/-- A text is read back from its bytes. -/
theorem lossyChars_flatMap (cs : List Char) : lossyChars (cs.flatMap utf8EncodeChar) = cs := by
  induction cs with
  | nil => rw [List.flatMap_nil, lossyChars]
  | cons c cs ih =>
    rw [List.flatMap_cons, lossyChars_sequence (sequence_encode c), ih, Char.ofNat_toNat]

/-- Only its own bytes are read as a text without replacement characters. -/
theorem flatMap_lossyChars {bytes : Bytes} (h : '\uFFFD' ∉ lossyChars bytes) :
    (lossyChars bytes).flatMap utf8EncodeChar = bytes := by
  induction hsize : bytes.length using Nat.strongRecOn generalizing bytes with
  | ind size ih =>
    rcases bytes with _ | ⟨b, bytes⟩
    · rw [lossyChars, List.flatMap_nil]
    rcases sequence_or_replaced b bytes with ⟨s, v, rest, hseq, hsplit⟩ | ⟨rest, hreplaced⟩
    · have hs := hseq.eq_encode
      rw [hsplit] at h hsize ⊢
      rw [lossyChars_sequence hseq] at h ⊢
      have hpos : 0 < s.length := by cases hseq <;> simp
      rw [List.length_append] at hsize
      rw [List.flatMap_cons, ← hs, ih rest.length (by omega) (List.not_mem_of_not_mem_cons h) rfl]
    · rw [hreplaced] at h
      exact absurd List.mem_cons_self h

theorem ofUtf8Lossy_eq_iff {bytes : Bytes} {s : String} (h : '\uFFFD' ∉ s.toList) :
    ofUtf8Lossy bytes = s ↔ bytes = utf8 s := by
  constructor
  · rintro rfl
    rw [ofUtf8Lossy, String.toList_ofList] at h
    rw [ofUtf8Lossy, utf8_ofList, flatMap_lossyChars h]
  · rintro rfl
    rw [ofUtf8Lossy, ← String.ofList_toList (s := s), utf8_ofList, lossyChars_flatMap]

/-! ### Trimming -/

theorem trimStart_append {before : List Char} (h : ∀ c ∈ before, isBlank c = true) (cs : List Char) :
    trimStart (before ++ cs) = trimStart cs :=
  List.dropWhile_append_of_pos h

theorem exists_trimStart (cs : List Char) :
    ∃ before : List Char, (∀ c ∈ before, isBlank c = true) ∧ cs = before ++ trimStart cs :=
  ⟨cs.takeWhile isBlank, fun _ => List.mem_takeWhile_imp, List.takeWhile_append_dropWhile.symm⟩

/-- Trimming takes away white space at both ends, and all of it. -/
theorem trimChars_eq_iff {cs w : List Char} (hne : w ≠ []) (hw : ∀ c ∈ w, isBlank c = false) :
    trimChars cs = w ↔ ∃ before after : List Char, (∀ c ∈ before, isBlank c = true) ∧
      (∀ c ∈ after, isBlank c = true) ∧ cs = before ++ w ++ after := by
  constructor
  · rintro rfl
    obtain ⟨before, hbefore, hcs⟩ := exists_trimStart cs
    obtain ⟨after, hafter, hrest⟩ := exists_trimStart (trimStart cs).reverse
    refine ⟨before, after.reverse, hbefore, fun c hc => hafter c (List.mem_reverse.mp hc), ?_⟩
    have hback := congrArg List.reverse hrest
    rw [List.reverse_reverse, List.reverse_append] at hback
    rw [List.append_assoc, trimChars, ← hback]
    exact hcs
  · rintro ⟨before, after, hbefore, hafter, rfl⟩
    obtain ⟨c, w, rfl⟩ := List.exists_cons_of_ne_nil hne
    have hafter' : ∀ c ∈ after.reverse, isBlank c = true := fun c hc =>
      hafter c (List.mem_reverse.mp hc)
    rw [trimChars, List.append_assoc, trimStart_append hbefore, List.cons_append,
      trimStart_cons (hw c List.mem_cons_self), ← List.cons_append, List.reverse_append,
      trimStart_append hafter', trimStart_eq_self, List.reverse_reverse]
    exact fun d hd => hw d (List.mem_reverse.mp hd)

theorem trim_ofUtf8Lossy_eq_iff {bytes : Bytes} {w : String} (hne : w.toList ≠ [])
    (hw : ∀ c ∈ w.toList, isBlank c = false) (hplain : '\uFFFD' ∉ w.toList) :
    trim (ofUtf8Lossy bytes) = w ↔ ∃ before after : String, isBlankText before = true ∧
      isBlankText after = true ∧ bytes = utf8 (before ++ w ++ after) := by
  have htrim : trim (ofUtf8Lossy bytes) = w ↔ trimChars (lossyChars bytes) = w.toList := by
    rw [trim, ofUtf8Lossy, String.toList_ofList, ← String.toList_inj, String.toList_ofList]
  rw [htrim, trimChars_eq_iff hne hw]
  constructor
  · rintro ⟨before, after, hbefore, hafter, hchars⟩
    refine ⟨String.ofList before, String.ofList after, ?_, ?_, ?_⟩
    · rwa [isBlankText, String.toList_ofList, List.all_eq_true]
    · rwa [isBlankText, String.toList_ofList, List.all_eq_true]
    · have hreplaced : isBlank '\uFFFD' = false := by decide
      refine (ofUtf8Lossy_eq_iff ?_).mp ?_
      · simp only [String.toList_append, String.toList_ofList, List.mem_append, not_or]
        refine ⟨⟨fun hmem => ?_, hplain⟩, fun hmem => ?_⟩
        · exact absurd (hbefore _ hmem) (Bool.eq_false_iff.mp hreplaced)
        · exact absurd (hafter _ hmem) (Bool.eq_false_iff.mp hreplaced)
      · rw [ofUtf8Lossy, hchars, String.ofList_append, String.ofList_append, String.ofList_toList]
  · rintro ⟨before, after, hbefore, hafter, rfl⟩
    refine ⟨before.toList, after.toList, List.all_eq_true.mp hbefore, List.all_eq_true.mp hafter, ?_⟩
    rw [← String.ofList_toList (s := before ++ w ++ after), utf8_ofList, lossyChars_flatMap,
      String.toList_append, String.toList_append]

end Gatehouse.Text
