import Gatehouse.Json.Read
import Gatehouse.Json.Write
import Gatehouse.Proofs.Time.ReadBack
import Mathlib.Tactic.IntervalCases

/-!
# What is written in JSON is read back

`textChars_written`: every text, quotes, backslashes and control characters included, is what is read between
the quotes it is written in. `number_decimal`: a number is read back where no more of a number can follow.

Proof. Each character is written in a way that is told by its first one or two characters, of which none is a
quote (`textChars_escapeChar`). The digits of a number do not begin with a zero unless it is zero
(`decimal_eq_zero_cons`), and as its value stays within 64 bits no digit is dropped (`significand_of_lt`).
-/

namespace Gatehouse.Json

open Text (decimal isDigit isDigit_of_mem_decimal)

/-! ### Texts -/

/-- What an escaped control character stands for. -/
theorem unicodeEscape_control {n : Nat} (h : n < 32) (rest : List Char) :
    unicodeEscape ('0' :: '0' :: Bytes.hexDigit (n / 16) :: Bytes.hexDigit (n % 16) :: rest) =
      .ok (Char.ofNat n, 4) := by
  interval_cases n <;> rfl

/-- Each character is read as itself from the way in which it is written. -/
theorem textChars_escapeChar (c : Char) (rest : List Char) :
    textChars (escapeChar c ++ rest) = (textChars rest).map fun (xs, rest) => (c :: xs, rest) := by
  have hshort : ∀ {e : Char}, e ≠ 'u' → shortEscape? e = some c →
      textChars ('\\' :: e :: rest) = (textChars rest).map fun (xs, rest) => (c :: xs, rest) := by
    intro e hu he
    rw [textChars.eq_def]
    simp only [hu, he]
    rcases textChars rest with failure | ⟨xs, rest⟩ <;> rfl
  unfold escapeChar
  split_ifs with hquote hbackslash hb hf hn hr ht hcontrol
  · subst hquote
    exact hshort (by decide) rfl
  · subst hbackslash
    exact hshort (by decide) rfl
  · subst hb
    exact hshort (by decide) rfl
  · subst hf
    exact hshort (by decide) rfl
  · subst hn
    exact hshort (by decide) rfl
  · subst hr
    exact hshort (by decide) rfl
  · subst ht
    exact hshort (by decide) rfl
  · have hlt : c.toNat < 32 := hcontrol
    have hescape := unicodeEscape_control hlt rest
    rw [Char.ofNat_toNat] at hescape
    rw [textChars.eq_def]
    simp only [List.cons_append, List.nil_append, reduceIte, Char.reduceEq, hescape]
    show (textChars rest >>= fun p => Except.ok (c :: p.1, p.2)) = _
    rcases textChars rest with failure | ⟨xs, rest⟩ <;> rfl
  · rw [textChars.eq_def]
    simp only [List.cons_append, List.nil_append, hquote, hbackslash, hcontrol, if_false]
    rcases textChars rest with failure | ⟨xs, rest⟩ <;> rfl

/-- A text is read back up to the quote at its end. -/
theorem textChars_written (cs rest : List Char) :
    textChars (cs.flatMap escapeChar ++ '"' :: rest) = .ok (cs, rest) := by
  induction cs with
  | nil =>
    rw [List.flatMap_nil, List.nil_append, textChars.eq_def]
    rfl
  | cons c cs ih =>
    rw [List.flatMap_cons, List.append_assoc, textChars_escapeChar, ih]
    rfl

/-! ### Numbers -/

/-- Nothing follows that could be a part of a number. -/
def Ends (rest : List Char) : Prop :=
  ∀ c ∈ rest.head?, isDigit c = false ∧ c ≠ '.' ∧ c ≠ 'e' ∧ c ≠ 'E'

/-- The digits of a number begin with a zero only if it is zero. -/
theorem decimal_eq_zero_cons {n : Nat} {ds : List Char} (h : decimal n = '0' :: ds) : ds = [] := by
  induction n using Nat.strongRecOn generalizing ds with
  | ind n ih =>
    unfold decimal at h ih
    by_cases hlt : n < 10
    · rw [Nat.toDigits_of_lt_base hlt] at h
      exact (List.cons.inj h).2.symm
    · have hle : 10 ≤ n := Nat.le_of_not_lt hlt
      rw [Nat.toDigits_of_base_le (by decide) hle] at h
      rcases hfront : Nat.toDigits 10 (n / 10) with _ | ⟨d, front⟩
      · exact absurd hfront Nat.toDigits_ne_nil
      · rw [hfront, List.cons_append, List.cons.injEq] at h
        obtain ⟨rfl, -⟩ := h
        -- The digits in front would be those of zero, but the number has more than one digit.
        have hnil := ih (n / 10) (Nat.div_lt_self (by omega) (by decide)) hfront
        have hvalue : Nat.ofDigitChars 10 (Nat.toDigits 10 (n / 10)) 0 = n / 10 :=
          Nat.ofDigitChars_ten_toDigits
        rw [hfront, hnil] at hvalue
        have hzero : n / 10 = 0 := hvalue.symm
        omega

/-- Reading on never makes a number less. -/
theorem le_digits (ds : List Char) (value : Nat) :
    value ≤ ds.foldl (fun n c => 10 * n + Text.digitValue c) value := by
  induction ds generalizing value with
  | nil => exact Nat.le_refl value
  | cons d ds ih =>
    have hnext := ih (10 * value + Text.digitValue d)
    rw [List.foldl_cons]
    omega

/-- No digit is dropped from a number of 64 bits. -/
theorem significand_of_lt {ds : List Char} (value : Nat)
    (h : ds.foldl (fun n c => 10 * n + Text.digitValue c) value < wordLimit) :
    significand value ds = (ds.foldl (fun n c => 10 * n + Text.digitValue c) value, 0) := by
  induction ds generalizing value with
  | nil => rfl
  | cons d ds ih =>
    rw [List.foldl_cons] at h ⊢
    rw [significand, if_pos (Nat.lt_of_le_of_lt (le_digits ds _) h)]
    exact ih _ h

theorem fractionPart_of_ends {rest : List Char} (h : Ends rest) : fractionPart rest = .ok (none, rest) := by
  cases rest with
  | nil => rfl
  | cons c rest =>
    obtain ⟨-, hdot, -, -⟩ := h c rfl
    unfold fractionPart
    split
    · next heq => exact absurd (List.cons.inj heq).1 hdot
    · rfl

theorem exponentPart_of_ends {rest : List Char} (h : Ends rest) : exponentPart rest = .ok (none, rest) := by
  cases rest with
  | nil => rfl
  | cons c rest =>
    obtain ⟨-, -, he, hE⟩ := h c rfl
    unfold exponentPart
    exact if_neg (not_or.mpr ⟨he, hE⟩)

theorem dropWhile_isDigit_append {ds rest : List Char} (hds : ∀ c ∈ ds, isDigit c = true)
    (hrest : ∀ c ∈ rest.head?, isDigit c = false) : (ds ++ rest).dropWhile isDigit = rest := by
  rw [List.dropWhile_append_of_pos hds]
  cases rest with
  | nil => rfl
  | cons c rest => exact List.dropWhile_cons_of_neg (by rw [hrest c rfl]; decide)

/-- A number of 64 bits is read back. -/
theorem number_decimal {n : Nat} (hn : n < wordLimit) {rest : List Char} (hrest : Ends rest) :
    number (decimal n ++ rest) = .ok (some n, rest) := by
  have hvalue : (decimal n).foldl (fun n c => 10 * n + Text.digitValue c) 0 = n :=
    Nat.ofDigitChars_ten_toDigits
  have hsignificand := significand_of_lt 0 (hvalue.symm ▸ hn : (decimal n).foldl _ 0 < wordLimit)
  rw [hvalue] at hsignificand
  have hstop : ∀ c ∈ rest.head?, isDigit c = false := fun c hc => (hrest c hc).1
  have htake := Time.Rfc3339.takeWhile_isDigit_append (fun _ => isDigit_of_mem_decimal (n := n)) hstop
  have hdrop := dropWhile_isDigit_append (fun _ => isDigit_of_mem_decimal (n := n)) hstop
  have hfraction := fractionPart_of_ends hrest
  have hexponent := exponentPart_of_ends hrest
  rcases hds : decimal n with _ | ⟨d, ds⟩
  · exact absurd hds Nat.toDigits_ne_nil
  have hd : isDigit d = true := isDigit_of_mem_decimal (n := n) (hds ▸ List.mem_cons_self)
  rw [hds] at hsignificand htake hdrop
  unfold number
  by_cases hzero : d = '0'
  · subst hzero
    obtain rfl := decimal_eq_zero_cons hds
    have hnone : rest.head?.any isDigit = false := by
      rw [Option.any_eq_false]
      exact hstop
    simp [hnone, hfraction, hexponent, hsignificand, bind, Except.bind, pure, Except.pure]
  · have hminus : d ≠ '-' := by
      rintro rfl
      exact absurd hd (by decide)
    rw [List.cons_append] at htake hdrop ⊢
    simp [hd, hminus, htake, hdrop, hfraction, hexponent, hsignificand, bind, Except.bind, pure, Except.pure]

end Gatehouse.Json
