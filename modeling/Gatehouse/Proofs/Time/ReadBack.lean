import Gatehouse.Proofs.Text.ReadBack
import Gatehouse.Time.Rfc3339
import Mathlib.Data.List.TakeWhile
import Mathlib.Tactic.Tauto

/-!
# Times are read back as they were written

`read?_write`: every instant there is, leap seconds and years of any length included, is what the text
written for it stands for.

Proof. Writing is canonical, so each reader meets exactly the digits that it takes at most: the
readers of two digits meet two, the fraction has three, six or nine, and the year is followed by a
hyphen. What is left is that hours, minutes and seconds make up the second of the day, where a leap
second is written as second 60 and nowhere else does 60 appear.
-/

namespace Gatehouse.Time.Rfc3339

open Gatehouse.Text

/-! ### Numbers and separators -/

theorem takeWhile_isDigit_append {ds rest : List Char} (hds : ∀ c ∈ ds, isDigit c = true)
    (hrest : ∀ c ∈ rest.head?, isDigit c = false) : (ds ++ rest).takeWhile isDigit = ds := by
  rw [List.takeWhile_append_of_pos hds]
  rcases rest with _ | ⟨c, rest⟩
  · exact List.append_nil ds
  · rw [List.takeWhile_cons, hrest c rfl]
    exact List.append_nil ds

theorem digits?_of_run {most : Nat} {ds rest : List Char} (hne : ds ≠ [])
    (hrun : ((ds ++ rest).take most).takeWhile isDigit = ds) :
    digits? most (ds ++ rest) = some (digitsValue ds, rest) := by
  unfold digits?
  rw [hrun]
  dsimp only
  rw [if_neg fun h => hne (List.isEmpty_iff.mp h), List.drop_left]

theorem digits?_padded {width n : Nat} (hwidth : 0 < width) (h : n < 10 ^ width)
    (rest : List Char) : digits? width (padded width n ++ rest) = some (n, rest) := by
  have hrun : ((padded width n ++ rest).take width).takeWhile isDigit = padded width n := by
    rw [List.take_append_of_le_length (Nat.le_of_eq (length_padded hwidth h).symm),
      List.take_of_length_le (Nat.le_of_eq (length_padded hwidth h))]
    exact List.takeWhile_eq_self_iff.mpr fun c hc => isDigit_of_mem_padded hc
  rw [digits?_of_run (padded_ne_nil width n) hrun, digitsValue_padded]

theorem trimStart_padded (width n : Nat) (rest : List Char) :
    trimStart (padded width n ++ rest) = padded width n ++ rest := by
  rcases hdigits : padded width n with _ | ⟨c, ds⟩
  · exact absurd hdigits (padded_ne_nil width n)
  · refine trimStart_cons (not_isBlank_of_isDigit ?_) _
    exact isDigit_of_mem_padded (hdigits ▸ List.mem_cons_self)

theorem number?_padded {width n : Nat} (hwidth : 0 < width) (h : n < 10 ^ width)
    (rest : List Char) : number? width (padded width n ++ rest) = some (n, rest) := by
  rw [number?, trimStart_padded, digits?_padded hwidth h]

theorem literal?_cons {c : Char} (h : isBlank c = false) (rest : List Char) :
    literal? c (c :: rest) = some rest := by
  rw [literal?, trimStart_cons h]
  exact if_pos rfl

/-- A signed year may have any number of digits, and stops at the hyphen. -/
theorem digits?_signed (n : Nat) (rest : List Char) :
    digits? (padded 4 n ++ '-' :: rest).length (padded 4 n ++ '-' :: rest) =
      some (n, '-' :: rest) := by
  have hrun : ((padded 4 n ++ '-' :: rest).take (padded 4 n ++ '-' :: rest).length).takeWhile
      isDigit = padded 4 n := by
    rw [List.take_length]
    refine takeWhile_isDigit_append (fun c hc => isDigit_of_mem_padded hc) ?_
    intro c hc
    cases hc
    rfl
  rw [digits?_of_run (padded_ne_nil 4 n) hrun, digitsValue_padded]

theorem year?_yearText (year : Int) (rest : List Char) :
    year? (yearText year ++ '-' :: rest) = some (year, '-' :: rest) := by
  unfold yearText
  by_cases hplain : 0 ≤ year ∧ year ≤ 9999
  · rw [if_pos hplain]
    have hyear : year.toNat < 10 ^ 4 := by omega
    have hread := digits?_padded (by decide : 0 < 4) hyear ('-' :: rest)
    rcases hdigits : padded 4 year.toNat with _ | ⟨c, ds⟩
    · exact absurd hdigits (padded_ne_nil 4 _)
    have hdigit : isDigit c = true := isDigit_of_mem_padded (hdigits ▸ List.mem_cons_self)
    rw [hdigits] at hread
    rw [year?, List.cons_append, trimStart_cons (not_isBlank_of_isDigit hdigit)]
    split
    · next heq =>
      cases heq
      exact absurd hdigit (by decide)
    · next heq =>
      cases heq
      exact absurd hdigit (by decide)
    · rw [← List.cons_append, hread, Option.map_some]
      dsimp only
      rw [Int.toNat_of_nonneg hplain.1]
  · rw [if_neg hplain]
    have hread := digits?_signed year.natAbs rest
    by_cases hneg : year < 0
    · rw [if_pos hneg, List.cons_append, year?, trimStart_cons (by decide)]
      change (digits? (padded 4 year.natAbs ++ '-' :: rest).length _).map _ = _
      rw [hread, Option.map_some]
      dsimp only
      rw [Int.ofNat_natAbs_of_nonpos (Int.le_of_lt hneg), Int.neg_neg]
    · rw [if_neg hneg, List.cons_append, year?, trimStart_cons (by decide)]
      change (digits? (padded 4 year.natAbs ++ '-' :: rest).length _).map _ = _
      rw [hread, Option.map_some]
      dsimp only
      rw [Int.natAbs_of_nonneg (by omega)]

/-! ### The fraction -/

theorem fraction?_padded {width n : Nat} (hwidth : 0 < width) (hmost : width ≤ 9)
    (h : n < 10 ^ width) :
    fraction? ('.' :: padded width n ++ ['Z']) = some (n * 10 ^ (9 - width), ['Z']) := by
  have hlength := length_padded hwidth h
  have hrun : ((padded width n ++ ['Z']).take 9).takeWhile isDigit = padded width n := by
    rw [List.take_append, List.take_of_length_le (by omega)]
    refine takeWhile_isDigit_append (fun c hc => isDigit_of_mem_padded hc) ?_
    intro c hc
    have hmem : c ∈ ['Z'] := List.take_subset _ _ (List.mem_of_mem_head? hc)
    rw [List.mem_singleton.mp hmem]
    rfl
  have hdrop : (padded width n ++ ['Z']).drop width = ['Z'] := by
    rw [List.drop_append_of_le_length (Nat.le_of_eq hlength.symm),
      List.drop_of_length_le (Nat.le_of_eq hlength)]
    rfl
  rw [List.cons_append, fraction?, hrun,
    if_neg fun hempty => padded_ne_nil width n (List.isEmpty_iff.mp hempty), hlength,
    digitsValue_padded, hdrop]
  rfl

theorem fraction?_fractionText {nano : Nat} (h : nano < 1000000000) :
    fraction? (fractionText nano ++ ['Z']) = some (nano, ['Z']) := by
  unfold fractionText
  by_cases hzero : nano = 0
  · rw [if_pos hzero, hzero]
    rfl
  rw [if_neg hzero]
  by_cases hmilli : nano % 1000000 = 0
  · rw [if_pos hmilli, fraction?_padded (by decide) (by decide) (by omega)]
    congr 2
    omega
  rw [if_neg hmilli]
  by_cases hmicro : nano % 1000 = 0
  · rw [if_pos hmicro, fraction?_padded (by decide) (by decide) (by omega)]
    congr 2
    omega
  · rw [if_neg hmicro, fraction?_padded (by decide) (by decide) (by omega)]
    congr 2
    omega

/-! ### The length of the text -/

theorem daysInMonth_le (year : Int) (month : Nat) : daysInMonth year month ≤ 31 := by
  unfold daysInMonth
  split
  · split <;> decide
  all_goals decide

/-- What is written after the year has a fixed length: the month, the day and the time of the day. -/
theorem exists_secondsText (t : Instant) : ∃ rest : List Char,
    secondsText t = yearText t.date.year ++ rest ∧ rest.length = 15 ∧
      ∀ c ∈ rest, isDigit c = true ∨ c ∈ ['-', 'T', ':'] := by
  obtain ⟨hsecond, -, -⟩ := t.isClock
  obtain ⟨-, -, -, hmonth, -, hday⟩ := t.date.isDate
  have hday' := daysInMonth_le t.date.year t.date.month
  have htwo {n : Nat} (h : n < 100) : (padded 2 n).length = 2 := length_padded (by decide) h
  have hleap : t.second % 60 + (if t.nano < 1000000000 then 0 else 1) < 100 := by split <;> omega
  unfold secondsText
  simp only [List.append_assoc, List.cons_append]
  refine ⟨_, rfl, ?_, fun c hc => ?_⟩
  · simp only [List.length_append, List.length_cons, htwo (by omega : t.date.month < 100),
      htwo (by omega : t.date.day < 100), htwo (by omega : t.second / 3600 < 100),
      htwo (by omega : t.second / 60 % 60 < 100), htwo hleap]
  · have hdigit {n : Nat} (h : c ∈ padded 2 n) : isDigit c = true := isDigit_of_mem_padded h
    simp only [List.mem_cons, List.mem_append, List.not_mem_nil, or_false] at hc ⊢
    tauto

theorem length_yearText_le (date : Date) : (yearText date.year).length ≤ 7 := by
  obtain ⟨hfirst, hlast, -⟩ := date.isDate
  rw [firstYear] at hfirst
  rw [lastYear] at hlast
  unfold yearText
  split_ifs with hplain
  · have := length_padded_le (by decide : 4 ≤ 4) (by decide) (by omega : date.year.toNat < 10 ^ 4)
    omega
  all_goals
    have := length_padded_le (by decide : 4 ≤ 6) (by decide) (by omega : date.year.natAbs < 10 ^ 6)
    rw [List.length_cons]
    omega

theorem length_fractionText_le {nano : Nat} (h : nano < 1000000000) : (fractionText nano).length ≤ 10 := by
  unfold fractionText
  split_ifs
  · exact Nat.zero_le _
  all_goals rw [List.length_cons, length_padded (by decide) (by omega)]
  all_goals decide

theorem length_write_le (t : Instant) : (write t).toList.length ≤ 33 := by
  obtain ⟨rest, htext, hrest, -⟩ := exists_secondsText t
  have hyear := length_yearText_le t.date
  have hfraction := length_fractionText_le (Nat.mod_lt t.nano (by decide : 1000000000 > 0))
  rw [write, String.toList_ofList, htext]
  simp only [List.length_append, List.length_singleton]
  omega

/-! ### The whole text -/

theorem atOffset?_zero (t : Instant) : atOffset? t.date t.second t.nano 0 = some t := by
  obtain ⟨hsecond, -, -⟩ := t.isClock
  unfold atOffset?
  dsimp only
  rw [if_neg (by omega), if_pos (by omega), Int.sub_zero, Int.toNat_natCast, Instant.of?,
    dif_pos t.isClock]

theorem bind_of_eq_some {α β : Type} {x : Option α} {a : α} {f : α → Option β} (h : x = some a) :
    (x >>= f) = f a := by
  rw [h]
  rfl

theorem readChars?_write (t : Instant) :
    readChars? (secondsText t ++ fractionText (t.nano % 1000000000) ++ ['Z']) = some t := by
  obtain ⟨hsecond, hnano, hleap⟩ := t.isClock
  obtain ⟨-, -, -, hmonth, -, hday⟩ := t.date.isDate
  have hday' : t.date.day < 10 ^ 2 := by
    have := daysInMonth_le t.date.year t.date.month
    omega
  have hmonth' : t.date.month < 10 ^ 2 := by omega
  have hhour : t.second / 3600 < 10 ^ 2 := by omega
  have hminute : t.second / 60 % 60 < 10 ^ 2 := by omega
  have hyear := year?_yearText t.date.year
  have hleap' : t.second % 60 + (if t.nano < 1000000000 then 0 else 1) < 10 ^ 2 := by
    split <;> omega
  have hfraction := fraction?_fractionText (Nat.mod_lt t.nano (by decide : 1000000000 > 0))
  have hseparator : ∀ rest, separator? ('T' :: rest) = some rest := fun _ => rfl
  have hoffset : offset? (trimStart ['Z']) = some (0, []) := rfl
  have hdash : ∀ rest, literal? '-' ('-' :: rest) = some rest := literal?_cons (by decide)
  have hcolon : ∀ rest, literal? ':' (':' :: rest) = some rest := literal?_cons (by decide)
  have htwo : ∀ {n}, n < 10 ^ 2 → ∀ rest, number? 2 (padded 2 n ++ rest) = some (n, rest) :=
    fun h => number?_padded (by decide) h
  unfold readChars? secondsText
  simp only [List.append_assoc, List.cons_append]
  refine (bind_of_eq_some (hyear _)).trans ?_
  refine (bind_of_eq_some (hdash _)).trans ?_
  refine (bind_of_eq_some (htwo hmonth' _)).trans ?_
  refine (bind_of_eq_some (hdash _)).trans ?_
  refine (bind_of_eq_some (htwo hday' _)).trans ?_
  refine (bind_of_eq_some (hseparator _)).trans ?_
  refine (bind_of_eq_some (htwo hhour _)).trans ?_
  refine (bind_of_eq_some (hcolon _)).trans ?_
  refine (bind_of_eq_some (htwo hminute _)).trans ?_
  refine (bind_of_eq_some (hcolon _)).trans ?_
  refine (bind_of_eq_some (htwo hleap' _)).trans ?_
  refine (bind_of_eq_some hfraction).trans ?_
  refine (bind_of_eq_some hoffset).trans ?_
  dsimp only
  rw [if_neg (by decide), if_neg (by split <;> omega)]
  refine (bind_of_eq_some t.date.of?_self).trans ?_
  -- Second 60 is read back exactly where a leap second was written.
  by_cases hplain : t.nano < 1000000000
  · have hsecond' : t.second / 3600 * 3600 + t.second / 60 % 60 * 60 + t.second % 60 = t.second := by
      omega
    rw [if_pos hplain, Nat.add_zero, if_neg (by omega), Nat.sub_zero, hsecond', Nat.zero_mul,
      Nat.add_zero, Nat.mod_eq_of_lt hplain, atOffset?_zero]
  · have hsecond' : t.second / 3600 * 3600 + t.second / 60 % 60 * 60 + (t.second % 60 + 1) - 1 =
        t.second := by
      omega
    have hnano' : t.nano % 1000000000 + 1 * 1000000000 = t.nano := by omega
    rw [if_neg hplain, if_pos (by omega), hsecond', hnano', atOffset?_zero]

theorem read?_write (t : Instant) : read? (write t) = some t := by
  rw [read?, write, String.toList_ofList, readChars?_write]

end Gatehouse.Time.Rfc3339
