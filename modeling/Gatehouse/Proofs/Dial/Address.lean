import Gatehouse.Dial.Spec
import Gatehouse.Proofs.Text.ReadBack
import Mathlib.Data.List.TakeWhile
import Mathlib.Tactic.Common

/-!
# The forms of an address

`address_is_read`: what is read as an address is exactly what is written in one of four forms
(`Address.Written`), a name in brackets or not, with a port or not, with white space around it or not. All
else is refused as an invalid address.

Proof. A text with the character that ends the host splits at the first one of them (`splitFirst_append`),
and what follows it decides between the forms (`bracketed?_append`, `addressChars?_unbracketed`). Hence
what is read is written (`addressChars?_cases`), and what is written is read
(`Address.Written.addressChars?`).
-/

namespace Gatehouse

/-! ### Numbers -/

namespace Text

/-- A plus sign in front of the digits is passed over. -/
theorem bounded?_eq {limit : Nat} {cs digits : List Char}
    (h : cs = digits ∧ digits.head? ≠ some '+' ∨ cs = '+' :: digits) :
    bounded? limit cs =
      if digits.isEmpty || !digits.all isDigit then none
      else if digitsValue digits ≤ limit then some (digitsValue digits)
      else none := by
  unfold bounded?
  rcases h with ⟨rfl, hhead⟩ | rfl
  · dsimp only
    split
    · exact absurd rfl hhead
    · rfl
  · rfl

theorem bounded?_eq_some_iff {limit n : Nat} {cs : List Char} :
    bounded? limit cs = some n ↔ ∃ digits : List Char, digits ≠ [] ∧ (∀ c ∈ digits, isDigit c = true) ∧
      (cs = digits ∨ cs = '+' :: digits) ∧ digitsValue digits = n ∧ n ≤ limit := by
  constructor
  · intro h
    obtain ⟨digits, hcs⟩ : ∃ digits, cs = digits ∧ digits.head? ≠ some '+' ∨ cs = '+' :: digits := by
      by_cases hhead : cs.head? = some '+'
      · obtain ⟨rest, rfl⟩ := List.head?_eq_some_iff.mp hhead
        exact ⟨rest, .inr rfl⟩
      · exact ⟨cs, .inl ⟨rfl, hhead⟩⟩
    rw [bounded?_eq hcs] at h
    split_ifs at h with hbad hle
    simp only [Bool.or_eq_true, List.isEmpty_iff, Bool.not_eq_true', not_or, Bool.not_eq_false,
      List.all_eq_true] at hbad
    obtain rfl := Option.some.inj h
    exact ⟨digits, hbad.1, hbad.2, hcs.imp And.left id, rfl, hle⟩
  · rintro ⟨digits, hne, hdigits, hcs, rfl, hle⟩
    have hhead : digits.head? ≠ some '+' := fun hplus =>
      absurd (hdigits '+' (List.mem_of_mem_head? hplus)) (by decide)
    rw [bounded?_eq (hcs.imp (⟨·, hhead⟩) id), if_neg, if_pos hle]
    simpa [List.isEmpty_iff, hne] using hdigits

end Text

namespace Dial

/-! ### The written forms -/

/-- A port in decimal digits, with a plus sign in front or not. -/
def IsPort (text : String) (port : UInt16) : Prop :=
  ∃ digits : List Char, digits ≠ [] ∧ (∀ c ∈ digits, '0' ≤ c ∧ c ≤ '9') ∧
    (text.toList = digits ∨ text.toList = '+' :: digits) ∧ Nat.ofDigitChars 10 digits 0 = port.toNat

/-- The forms of an address: a name in brackets, without a port and with one, and a name without brackets,
with a port after its only colon, and alone. -/
inductive Address.Written : String → Address → Prop
  | bracketed {host : String} (hhost : host ≠ "") (hclosed : ']' ∉ host.toList) :
    Written ("[" ++ host ++ "]") ⟨host, 22⟩
  | bracketedPort {host digits : String} {port : UInt16} (hhost : host ≠ "")
      (hclosed : ']' ∉ host.toList) (hport : IsPort digits port) :
    Written ("[" ++ host ++ "]:" ++ digits) ⟨host, port⟩
  | named {host digits : String} {port : UInt16} (hhost : host ≠ "")
      (hopen : (host ++ ":" ++ digits).toList.head? ≠ some '[')
      (hcolon : (host ++ ":" ++ digits).toList.count ':' = 1) (hport : IsPort digits port) :
    Written (host ++ ":" ++ digits) ⟨host, port⟩
  | bare {text : String} (htext : text ≠ "") (hopen : text.toList.head? ≠ some '[')
      (hcolons : text.toList.count ':' ≠ 1) :
    Written text ⟨text, 22⟩

/-! ### Splitting -/

theorem splitFirst_append {c : Char} {before : List Char} (h : c ∉ before) (after : List Char) :
    splitFirst c (before ++ c :: after) = some (before, after) := by
  have hbefore : (before ++ c :: after).takeWhile (· ≠ c) = before := by
    rw [List.takeWhile_append_of_pos, List.takeWhile_cons_of_neg, List.append_nil]
    · simp
    · intro d hd
      exact decide_eq_true fun hdc => h (hdc ▸ hd)
  unfold splitFirst
  dsimp only
  rw [hbefore, List.drop_left]

theorem splitFirst_eq_none {c : Char} {cs : List Char} (h : c ∉ cs) : splitFirst c cs = none := by
  have hall : cs.takeWhile (· ≠ c) = cs := by
    rw [List.takeWhile_eq_self_iff]
    intro d hd
    exact decide_eq_true fun hdc => h (hdc ▸ hd)
  unfold splitFirst
  dsimp only
  rw [hall, List.drop_length]

theorem port?_eq_some_iff {cs : List Char} {port : UInt16} :
    port? cs = some port ↔ IsPort (String.ofList cs) port := by
  rw [port?, Option.map_eq_some_iff]
  simp only [Text.bounded?_eq_some_iff, IsPort, String.toList_ofList]
  constructor
  · rintro ⟨n, ⟨digits, hne, hdigits, hcs, rfl, hle⟩, rfl⟩
    refine ⟨digits, hne, fun c hc => by simpa [Text.isDigit] using hdigits c hc, hcs, ?_⟩
    rw [UInt16.toNat_ofNat', Nat.mod_eq_of_lt (by omega)]
    rfl
  · rintro ⟨digits, hne, hdigits, hcs, hvalue⟩
    have hport := port.toNat_lt
    refine ⟨port.toNat, ⟨digits, hne, fun c hc => by simpa [Text.isDigit] using hdigits c hc, hcs, hvalue,
      by omega⟩, UInt16.ofNat_toNat⟩

theorem port?_toList {text : String} {port : UInt16} (h : IsPort text port) :
    port? text.toList = some port :=
  port?_eq_some_iff.mpr (by rwa [String.ofList_toList])

/-! ### Reading -/

/-- What is left to read where the text says where the host ends. -/
theorem bracketed?_append {host tail : List Char} (h : ']' ∉ host) :
    bracketed? (host ++ ']' :: tail) =
      if host.isEmpty then none
      else match tail with
        | [] => some ⟨String.ofList host, 22⟩
        | ':' :: digits => (port? digits).bind fun port => some ⟨String.ofList host, port⟩
        | _ => none := by
  rw [bracketed?, splitFirst_append h]
  rfl

theorem ofList_ne_empty {cs : List Char} (h : ¬cs.isEmpty = true) : String.ofList cs ≠ "" := by
  rwa [ne_eq, String.ofList_eq_empty_iff, ← List.isEmpty_iff]

theorem not_isEmpty_toList {text : String} (h : text ≠ "") : ¬text.toList.isEmpty = true := by
  rwa [List.isEmpty_iff, String.toList_eq_nil_iff]

/-- Texts that hold the same characters are the same. -/
theorem Address.Written.of_toList {text text' : String} {address : Address} (h : Written text address)
    (heq : text'.toList = text.toList) : Written text' address :=
  String.toList_inj.mp heq ▸ h

theorem bracketed?_cases (cs : List Char) :
    bracketed? cs = none ∨ ∃ address, bracketed? cs = some address ∧
      Address.Written (String.ofList ('[' :: cs)) address := by
  by_cases hclosed : ']' ∈ cs
  · obtain ⟨host, tail, rfl, hhost⟩ := List.eq_append_cons_of_mem hclosed
    rw [bracketed?_append hhost]
    by_cases hempty : host.isEmpty = true
    · rw [if_pos hempty]
      exact .inl rfl
    rw [if_neg hempty]
    have hname := ofList_ne_empty hempty
    have hinside : ']' ∉ (String.ofList host).toList := by rwa [String.toList_ofList]
    split
    · exact .inr ⟨_, rfl, (Address.Written.bracketed hname hinside).of_toList (by simp)⟩
    · next digits =>
      rcases hport : port? digits with _ | port
      · exact .inl rfl
      · exact .inr ⟨_, rfl,
          (Address.Written.bracketedPort hname hinside (port?_eq_some_iff.mp hport)).of_toList (by simp)⟩
    · exact .inl rfl
  · rw [bracketed?, splitFirst_eq_none hclosed]
    exact .inl rfl

/-- An address that does not start with a bracket ends at its only colon. -/
theorem addressChars?_unbracketed {cs : List Char} (hne : cs ≠ []) (hopen : cs.head? ≠ some '[') :
    addressChars? cs =
      match splitFirst ':' cs with
      | some (host, digits) =>
        if ':' ∈ digits then some ⟨String.ofList cs, 22⟩
        else if host.isEmpty then none
        else (port? digits).bind fun port => some ⟨String.ofList host, port⟩
      | none => some ⟨String.ofList cs, 22⟩ := by
  unfold addressChars?
  split
  · exact absurd rfl hne
  · exact absurd rfl hopen
  · rfl

theorem addressChars?_cases (cs : List Char) :
    addressChars? cs = none ∨ ∃ address, addressChars? cs = some address ∧
      Address.Written (String.ofList cs) address := by
  by_cases hne : cs = []
  · subst hne
    exact .inl rfl
  by_cases hopen : cs.head? = some '['
  · obtain ⟨rest, rfl⟩ := List.head?_eq_some_iff.mp hopen
    exact bracketed?_cases rest
  rw [addressChars?_unbracketed hne hopen]
  have htext : String.ofList cs ≠ "" := by rwa [ne_eq, String.ofList_eq_empty_iff]
  have hfirst : (String.ofList cs).toList.head? ≠ some '[' := by rwa [String.toList_ofList]
  by_cases hcolon : ':' ∈ cs
  · obtain ⟨host, digits, rfl, hhost⟩ := List.eq_append_cons_of_mem hcolon
    rw [splitFirst_append hhost]
    dsimp only
    by_cases hmore : ':' ∈ digits
    · rw [if_pos hmore]
      refine .inr ⟨_, rfl, .bare htext hfirst ?_⟩
      have hcount := List.count_pos_iff.mpr hmore
      rw [String.toList_ofList, List.count_append, List.count_cons_self]
      omega
    rw [if_neg hmore]
    by_cases hempty : host.isEmpty = true
    · rw [if_pos hempty]
      exact .inl rfl
    rw [if_neg hempty]
    rcases hport : port? digits with _ | port
    · exact .inl rfl
    · have htoList : (String.ofList host ++ ":" ++ String.ofList digits).toList = host ++ ':' :: digits := by
        simp
      refine .inr ⟨_, rfl, (Address.Written.named (ofList_ne_empty hempty) ?_ ?_
        (port?_eq_some_iff.mp hport)).of_toList ?_⟩
      · rwa [htoList]
      · rw [htoList, List.count_append, List.count_cons_self, List.count_eq_zero.mpr hhost,
          List.count_eq_zero.mpr hmore]
      · rw [htoList, String.toList_ofList]
  · rw [splitFirst_eq_none hcolon]
    refine .inr ⟨_, rfl, .bare htext hfirst ?_⟩
    rw [String.toList_ofList, List.count_eq_zero.mpr hcolon]
    decide

theorem Address.Written.addressChars? {text : String} {address : Address} (h : Written text address) :
    Dial.addressChars? text.toList = some address := by
  cases h with
  | @bracketed host hhost hclosed =>
    have hchars : ("[" ++ host ++ "]").toList = '[' :: (host.toList ++ ']' :: []) := by simp
    rw [hchars]
    change bracketed? (host.toList ++ ']' :: []) = _
    rw [bracketed?_append hclosed, if_neg (not_isEmpty_toList hhost), String.ofList_toList]
  | @bracketedPort host digits port hhost hclosed hport =>
    have hchars : ("[" ++ host ++ "]:" ++ digits).toList =
        '[' :: (host.toList ++ ']' :: ':' :: digits.toList) := by simp
    rw [hchars]
    change bracketed? (host.toList ++ ']' :: ':' :: digits.toList) = _
    rw [bracketed?_append hclosed, if_neg (not_isEmpty_toList hhost), String.ofList_toList]
    simp only [port?_toList hport, Option.bind_some]
  | @named host digits port hhost hopen hcolon hport =>
    have hchars : (host ++ ":" ++ digits).toList = host.toList ++ ':' :: digits.toList := by simp
    rw [hchars, List.count_append, List.count_cons_self] at hcolon
    rw [hchars] at hopen
    have hbefore : ':' ∉ host.toList := List.count_eq_zero.mp (by omega)
    have hafter : ':' ∉ digits.toList := List.count_eq_zero.mp (by omega)
    rw [hchars, addressChars?_unbracketed (by simp) hopen, splitFirst_append hbefore]
    dsimp only
    rw [if_neg hafter, if_neg (not_isEmpty_toList hhost), String.ofList_toList, port?_toList hport,
      Option.bind_some]
  | bare htext hopen hcolons =>
    have hne : text.toList ≠ [] := by rwa [ne_eq, String.toList_eq_nil_iff]
    rw [addressChars?_unbracketed hne hopen]
    by_cases hcolon : ':' ∈ text.toList
    · obtain ⟨host, digits, hsplit, hhost⟩ := List.eq_append_cons_of_mem hcolon
      have hmore : ':' ∈ digits := by
        rw [hsplit, List.count_append, List.count_cons_self, List.count_eq_zero.mpr hhost] at hcolons
        exact List.count_pos_iff.mp (by omega)
      rw [hsplit, splitFirst_append hhost]
      dsimp only
      rw [if_pos hmore, ← hsplit, String.ofList_toList]
    · rw [splitFirst_eq_none hcolon, String.ofList_toList]

theorem Address.Written.host_ne_empty {text : String} {address : Address} (h : Written text address) :
    address.host ≠ "" := by
  cases h with
  | bracketed hhost | bracketedPort hhost | named hhost | bare hhost => exact hhost

theorem Address.parse?_eq_some_iff {text : String} {address : Address} :
    parse? text = some address ↔ Written (Text.trim text) address := by
  have hchars : Text.trimChars text.toList = (Text.trim text).toList := by rw [Text.trim, String.toList_ofList]
  rw [parse?, hchars]
  constructor
  · intro h
    rcases addressChars?_cases (Text.trim text).toList with hnone | ⟨found, hfound, hwritten⟩
    · rw [hnone] at h
      cases h
    · rw [hfound] at h
      obtain rfl := Option.some.inj h
      rwa [String.ofList_toList] at hwritten
  · exact Written.addressChars?

/-- A host is dialed where its address says. -/
theorem Spec.ofHost_eq_read (s : Store) (box : SecretBox) (host : Host) :
    Spec.ofHost s box host = (Address.read host.addr).bind fun address => do
      let credentials := (← keyCredential s box host) ++ passwordCredential box host
      if credentials.isEmpty then throw (.noAuthMethod host.name)
      else return { host, address, username := host.user, credentials } := by
  unfold Spec.ofHost Address.read
  cases Address.parse? host.addr <;> rfl

theorem Address.read_eq_ok_iff {text : String} {address : Address} :
    read text = .ok address ↔ Written (Text.trim text) address := by
  rw [← parse?_eq_some_iff, read]
  cases parse? text <;> simp

theorem isPort_decimal (port : UInt16) : IsPort (String.ofList (Text.decimal port.toNat)) port := by
  have hdigit : ∀ c ∈ Text.padded 0 port.toNat, Text.isDigit c = true := fun c => Text.isDigit_of_mem_padded
  refine ⟨Text.padded 0 port.toNat, Text.padded_ne_nil _ _, ?_, .inl ?_, Text.digitsValue_padded _ _⟩
  · simpa [Text.isDigit] using hdigit
  · rw [String.toList_ofList, Text.padded, Nat.zero_sub]
    rfl

/-- Neither the bracket in front nor the port at the end is white space. -/
theorem trim_bracketedPort {host digits : String} {port : UInt16} (hport : IsPort digits port) :
    Text.trim ("[" ++ host ++ "]:" ++ digits) = "[" ++ host ++ "]:" ++ digits := by
  obtain ⟨ds, hne, hdigits, htext, -⟩ := hport
  have hends : digits.toList.getLast? = ds.getLast? := by
    rcases htext with htext | htext
    · rw [htext]
    · rw [htext, List.getLast?_cons_of_ne_nil hne]
  have hchars : Text.trimChars ("[" ++ host ++ "]:" ++ digits).toList = ("[" ++ host ++ "]:" ++ digits).toList := by
    apply Text.trimChars_of_ends
    · intro c hc
      have hbracket : c = '[' := by simpa [eq_comm] using hc
      rw [hbracket]
      decide
    · intro c hc
      rw [String.toList_append, List.getLast?_append, hends, List.getLast?_eq_some_getLast hne, Option.some_or,
        Option.mem_some_iff] at hc
      have hdigit := hdigits _ (List.getLast_mem hne)
      rw [hc] at hdigit
      exact Text.not_isBlank_of_isDigit (by simpa [Text.isDigit] using hdigit)
  rw [Text.trim, hchars, String.ofList_toList]

/-- An address is read from exactly the written forms, with white space around them or not, and any other
text is refused. So the host is never empty, and a host in brackets with a port is read as these two. -/
theorem address_is_read (text : String) :
    (∀ address, Address.read text = .ok address ↔ Address.Written (Text.trim text) address) ∧
    ((∀ address, ¬Address.Written (Text.trim text) address) →
      Address.read text = .error (.invalidAddress (Text.trim text))) ∧
    (∀ address, Address.read text = .ok address → address.host ≠ "") ∧
    (∀ (host : String) (port : UInt16), host ≠ "" → ']' ∉ host.toList →
      Address.read ("[" ++ host ++ "]:" ++ String.ofList (Text.decimal port.toNat)) = .ok ⟨host, port⟩) := by
  refine ⟨fun _ => Address.read_eq_ok_iff, ?_, ?_, ?_⟩
  · intro hnone
    rcases hread : Address.parse? text with _ | address
    · rw [Address.read, hread]
    · exact absurd (Address.parse?_eq_some_iff.mp hread) (hnone address)
  · intro address hread
    exact (Address.read_eq_ok_iff.mp hread).host_ne_empty
  · intro host port hhost hclosed
    have hport := isPort_decimal port
    rw [Address.read_eq_ok_iff, trim_bracketedPort hport]
    exact .bracketedPort hhost hclosed hport

/-- An IPv6 address with a port is read, and one that lacks the colon before it is refused. -/
theorem address_is_read_ipv6 :
    "::1" ≠ "" ∧ ']' ∉ "::1".toList ∧
    Address.read ("[" ++ "::1" ++ "]:" ++ String.ofList (Text.decimal (2200 : UInt16).toNat)) =
      .ok ⟨"::1", 2200⟩ ∧
    (∀ address, ¬Address.Written (Text.trim " [::1]2222") address) ∧
    Address.read " [::1]2222" = .error (.invalidAddress (Text.trim " [::1]2222")) := by
  have hhost : "::1" ≠ "" := by decide
  have hclosed : ']' ∉ "::1".toList := by decide
  have hrefused : Address.read " [::1]2222" = .error (.invalidAddress (Text.trim " [::1]2222")) := rfl
  have hnone : ∀ address, ¬Address.Written (Text.trim " [::1]2222") address := by
    intro address hwritten
    have hread := ((address_is_read " [::1]2222").1 address).mpr hwritten
    rw [hrefused] at hread
    cases hread
  exact ⟨hhost, hclosed, (address_is_read "").2.2.2 "::1" 2200 hhost hclosed, hnone,
    (address_is_read " [::1]2222").2.1 hnone⟩

end Dial

end Gatehouse
