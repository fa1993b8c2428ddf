import Gatehouse.Base64
import Gatehouse.Text.Blank
import Mathlib.Tactic.Common

/-!
# Base64 is read back

`decodeChars?_encodeChars`: the padded writing of a byte string is read as that byte string. It has no
white space in it, so that trimming leaves it alone. `encodeChars_of_decodeChars?`: nothing but such a
writing is read.
-/

namespace Gatehouse

theorem Text.trimStart_eq_self {cs : List Char} (h : ∀ c ∈ cs, isBlank c = false) :
    trimStart cs = cs := by
  cases cs with
  | nil => rfl
  | cons c cs => simp [trimStart, h c List.mem_cons_self]

theorem Text.trimChars_eq_self {cs : List Char} (h : ∀ c ∈ cs, isBlank c = false) :
    trimChars cs = cs := by
  rw [trimChars, trimStart_eq_self h, trimStart_eq_self, List.reverse_reverse]
  intro c hc
  exact h c (List.mem_reverse.mp hc)

theorem Bytes.toNat_ofNat_lt {n : Nat} (h : n < 256) : (UInt8.ofNat n).toNat = n := by
  rw [UInt8.toNat_ofNat', Nat.mod_eq_of_lt h]

namespace Base64

open Bytes (toNat_ofNat_lt)

theorem value?_digit {n : Nat} (h : n < 64) : value? (digit n) = some n := by
  revert n
  decide

theorem digit_ne_padding {n : Nat} (h : n < 64) : digit n ≠ '=' := by
  revert n
  decide

theorem isBlank_digit {n : Nat} (h : n < 64) : Text.isBlank (digit n) = false := by
  revert n
  decide

theorem ofNat_eq {n : Nat} {a : UInt8} (h : n = a.toNat) : UInt8.ofNat n = a := by
  subst h
  simp

theorem decodeChars?_encodeChars (bytes : Bytes) : decodeChars? (encodeChars bytes) = some bytes := by
  induction bytes using encodeChars.induct with
  | case1 => rfl
  | case2 a =>
    have ha := a.toNat_lt
    rw [encodeChars, decodeChars?, value?_digit (by omega), value?_digit (by omega)]
    simp only [Option.bind_eq_bind, Option.bind_some, if_true]
    rw [if_pos ⟨trivial, trivial, by omega⟩, ofNat_eq (a := a) (by omega)]
  | case3 a b =>
    have ha := a.toNat_lt
    have hb := b.toNat_lt
    rw [encodeChars, decodeChars?, value?_digit (by omega), value?_digit (by omega),
      value?_digit (by omega)]
    simp only [Option.bind_eq_bind, Option.bind_some, if_true]
    rw [if_neg (digit_ne_padding (by omega)), if_pos ⟨trivial, by omega⟩, ofNat_eq (a := a) (by omega),
      ofNat_eq (a := b) (by omega)]
  | case4 a b c rest ih =>
    have ha := a.toNat_lt
    have hb := b.toNat_lt
    have hc := c.toNat_lt
    rw [encodeChars, decodeChars?, value?_digit (by omega), value?_digit (by omega),
      value?_digit (by omega), value?_digit (by omega), ih]
    simp only [Option.bind_eq_bind, Option.bind_some]
    rw [if_neg (digit_ne_padding (by omega)), if_neg (digit_ne_padding (by omega)),
      ofNat_eq (a := a) (by omega), ofNat_eq (a := b) (by omega), ofNat_eq (a := c) (by omega)]

theorem isBlank_of_mem_encodeChars {bytes : Bytes} :
    ∀ c ∈ encodeChars bytes, Text.isBlank c = false := by
  have hpadding : Text.isBlank '=' = false := by decide
  induction bytes using encodeChars.induct with
  | case1 => simp [encodeChars]
  | case2 a =>
    have ha := a.toNat_lt
    simp only [encodeChars, List.forall_mem_cons]
    exact ⟨isBlank_digit (by omega), isBlank_digit (by omega), hpadding, hpadding, by simp⟩
  | case3 a b =>
    have ha := a.toNat_lt
    have hb := b.toNat_lt
    simp only [encodeChars, List.forall_mem_cons]
    exact ⟨isBlank_digit (by omega), isBlank_digit (by omega), isBlank_digit (by omega), hpadding, by simp⟩
  | case4 a b c rest ih =>
    have ha := a.toNat_lt
    have hb := b.toNat_lt
    have hc := c.toNat_lt
    simp only [encodeChars, List.forall_mem_cons]
    exact ⟨isBlank_digit (by omega), isBlank_digit (by omega), isBlank_digit (by omega),
      isBlank_digit (by omega), ih⟩

/-! ### Nothing else is read -/

/-- A value belongs to one digit. -/
theorem digit_of_value? {c : Char} {n : Nat} (h : value? c = some n) : digit n = c ∧ n < 64 := by
  have hback : ∀ m, m = c.toNat → Char.ofNat m = c := fun m hm => hm ▸ Char.ofNat_toNat c
  simp only [value?, Char.le_def, UInt32.le_iff_toNat_le] at h
  split_ifs at h with hupper hlower hdigit hplus hslash
  · obtain ⟨hlow, hhigh⟩ := hupper
    change 65 ≤ c.toNat at hlow
    change c.toNat ≤ 90 at hhigh
    cases h
    refine ⟨?_, by omega⟩
    rw [digit, if_pos (by omega), hback _ (by omega)]
  · obtain ⟨hlow, hhigh⟩ := hlower
    change 97 ≤ c.toNat at hlow
    change c.toNat ≤ 122 at hhigh
    cases h
    refine ⟨?_, by omega⟩
    rw [digit, if_neg (by omega), if_pos (by omega), hback _ (by omega)]
  · obtain ⟨hlow, hhigh⟩ := hdigit
    change 48 ≤ c.toNat at hlow
    change c.toNat ≤ 57 at hhigh
    cases h
    refine ⟨?_, by omega⟩
    rw [digit, if_neg (by omega), if_neg (by omega), if_pos (by omega), hback _ (by omega)]
  · cases h
    exact ⟨hplus ▸ rfl, by omega⟩
  · cases h
    exact ⟨hslash ▸ rfl, by omega⟩

/-- A byte string has one writing: padding is where it has to be, and the bits that it leaves over are
zero. -/
theorem encodeChars_of_decodeChars? {cs : List Char} {bytes : Bytes} (h : decodeChars? cs = some bytes) :
    encodeChars bytes = cs := by
  induction cs using decodeChars?.induct generalizing bytes with
  | case1 =>
    obtain rfl := Option.some.inj h
    rfl
  | case2 w x y z rest ih =>
    rw [decodeChars?] at h
    simp only [Option.bind_eq_bind, Option.bind_eq_some_iff] at h
    obtain ⟨a, ha, b, hb, h⟩ := h
    obtain ⟨hw, ha64⟩ := digit_of_value? ha
    obtain ⟨hx, hb64⟩ := digit_of_value? hb
    by_cases hy : y = '='
    · rw [if_pos hy] at h
      split_ifs at h with hend
      obtain ⟨rfl, rfl, hzero⟩ := hend
      obtain rfl := Option.some.inj h
      rw [encodeChars, toNat_ofNat_lt (by omega), hy, ← hw, ← hx]
      congr 3 <;> omega
    · rw [if_neg hy] at h
      simp only [Option.bind_eq_some_iff] at h
      obtain ⟨c, hc, h⟩ := h
      obtain ⟨hy, hc64⟩ := digit_of_value? hc
      by_cases hz : z = '='
      · rw [if_pos hz] at h
        split_ifs at h with hend
        obtain ⟨rfl, hzero⟩ := hend
        obtain rfl := Option.some.inj h
        rw [encodeChars, toNat_ofNat_lt (by omega), toNat_ofNat_lt (by omega), hz, ← hw, ← hx, ← hy]
        congr 4 <;> omega
      · rw [if_neg hz] at h
        simp only [Option.bind_eq_some_iff] at h
        obtain ⟨d, hd, tail, htail, h⟩ := h
        obtain ⟨hz, hd64⟩ := digit_of_value? hd
        obtain rfl := Option.some.inj h
        rw [encodeChars, toNat_ofNat_lt (by omega), toNat_ofNat_lt (by omega), toNat_ofNat_lt (by omega),
          ih htail, ← hw, ← hx, ← hy, ← hz]
        congr 5 <;> omega
  | case3 cs hnil hfour =>
    rw [decodeChars?] at h
    · cases h
    · exact hnil
    · exact hfour

end Base64

end Gatehouse
