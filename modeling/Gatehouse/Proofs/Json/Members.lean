import Gatehouse.Proofs.Json.Tree
import Gatehouse.Proofs.MessagePack.Evolution

/-!
# Members in any order

`document_arranged`: a row is read back from an object that has the members of the row in any order, lacks
some of those that say nothing but a default, and has others besides whose names no field has.

Proof. As with entries of a stored form, what is known after some members depends only on which names have been
read (`gathered`). A member of the row fills its field (`member_gathered`), and one with a strange name and a scalar
value is passed over (`reads_passValue`); what stands before its colon and after its value does not
matter, as long as it ends there (`Reads`).
-/

namespace Gatehouse.Json

open MessagePack (finIdxOf?_get gathered gathered_nil gathered_congr gathered_cons_of_notMem complete?_gathered)
open Text (isDigit)

/-! ### Scalars -/

/-- At least one digit, and nothing else. -/
def Digits (ds : List Char) : Prop :=
  ds ≠ [] ∧ ∀ c ∈ ds, isDigit c = true

/-- The digits in front of the point: zero alone, or digits of which the first is not zero. -/
inductive Whole : List Char → Prop where
  | zero : Whole ['0']
  | digits {d : Char} {ds : List Char} (hne : d ≠ '0') (h : Digits (d :: ds)) : Whole (d :: ds)

/-- The point and the digits behind it, if there is one. -/
inductive Fraction : List Char → Prop where
  | none : Fraction []
  | some {ds : List Char} (h : Digits ds) : Fraction ('.' :: ds)

/-- The power of ten, if there is one. -/
inductive Exponent : List Char → Prop where
  | none : Exponent []
  | some {e : Char} {sign ds : List Char} (he : e = 'e' ∨ e = 'E') (hsign : sign ∈ [[], ['+'], ['-']])
    (h : Digits ds) : Exponent (e :: (sign ++ ds))

/-- The forms of scalar values: null, flags, numbers of any size and precision, and texts. -/
inductive Scalar : List Char → Prop where
  | null : Scalar ['n', 'u', 'l', 'l']
  | yes : Scalar ['t', 'r', 'u', 'e']
  | no : Scalar ['f', 'a', 'l', 's', 'e']
  | number {sign whole fraction exponent : List Char} (hsign : sign ∈ [[], ['-']]) (hwhole : Whole whole)
    (hfraction : Fraction fraction) (hexponent : Exponent exponent) :
    Scalar (sign ++ (whole ++ (fraction ++ exponent)))
  | text (s : String) : Scalar (writeText s)

theorem dropWhile_digits {ds rest : List Char} (hds : Digits ds) (hrest : ∀ c ∈ rest.head?, isDigit c = false) :
    (ds ++ rest).dropWhile isDigit = rest :=
  dropWhile_isDigit_append hds.2 hrest

/-- A run of digits begins with one. -/
theorem Digits.exists_cons {ds : List Char} (h : Digits ds) (rest : List Char) :
    ∃ d more, ds ++ rest = d :: more ∧ isDigit d = true := by
  cases ds with
  | nil => exact absurd rfl h.1
  | cons d ds => exact ⟨d, ds ++ rest, rfl, h.2 d List.mem_cons_self⟩

theorem exponentPart_of_exponent {exponent rest : List Char} (h : Exponent exponent) (hrest : Ends rest) :
    ∃ power, exponentPart (exponent ++ rest) = .ok (power, rest) := by
  cases h with
  | none => exact ⟨none, exponentPart_of_ends hrest⟩
  | @some e sign ds he hsign hds =>
    obtain ⟨d, more, hcons, hd⟩ := hds.exists_cons rest
    have hdrop := dropWhile_digits hds fun c hc => (hrest c hc).1
    rw [hcons] at hdrop
    simp only [List.mem_cons, List.not_mem_nil, or_false] at hsign
    rw [List.cons_append, List.append_assoc, hcons]
    rcases hsign with rfl | rfl | rfl
    · have hplus : d ≠ '+' := ne_of_isDigit hd rfl
      have hminus : d ≠ '-' := ne_of_isDigit hd rfl
      simp [exponentPart, he, hplus, hminus, hd, hdrop]
    · simp [exponentPart, he, hd, hdrop]
    · simp [exponentPart, he, hd, hdrop]

theorem fractionPart_of_fraction {fraction rest : List Char} (h : Fraction fraction)
    (hrest : ∀ c ∈ rest.head?, isDigit c = false ∧ c ≠ '.') :
    ∃ digits, fractionPart (fraction ++ rest) = .ok (digits, rest) := by
  cases h with
  | none =>
    refine ⟨none, ?_⟩
    unfold fractionPart
    split
    · next heq =>
      rw [List.nil_append] at heq
      exact absurd rfl (hrest '.' (heq ▸ rfl)).2
    · rfl
  | @some ds hds =>
    obtain ⟨d, more, hcons, hd⟩ := hds.exists_cons rest
    have hdrop := dropWhile_digits hds fun c hc => (hrest c hc).1
    rw [hcons] at hdrop
    rw [List.cons_append, hcons]
    simp [fractionPart, hd, hdrop]

/-- What follows the whole digits of a number, or its fraction, is no digit. -/
theorem head_exponent {exponent rest : List Char} (h : Exponent exponent) (hrest : Ends rest) :
    ∀ c ∈ (exponent ++ rest).head?, isDigit c = false ∧ c ≠ '.' := by
  cases h with
  | none => exact fun c hc => ⟨(hrest c hc).1, (hrest c hc).2.1⟩
  | some he =>
    rintro c hc
    cases hc
    rcases he with rfl | rfl <;> decide

theorem head_fraction {fraction exponent rest : List Char} (h : Fraction fraction) (h' : Exponent exponent)
    (hrest : Ends rest) : ∀ c ∈ (fraction ++ (exponent ++ rest)).head?, isDigit c = false := by
  cases h with
  | none => exact fun c hc => (head_exponent h' hrest c hc).1
  | some =>
    rintro c hc
    cases hc
    rfl

/-- A number is passed over, whatever its value. -/
theorem reads_passNumber {whole fraction exponent : List Char} (hwhole : Whole whole)
    (hfraction : Fraction fraction) (hexponent : Exponent exponent) :
    Reads passNumber (whole ++ (fraction ++ exponent)) () := by
  intro rest hrest
  obtain ⟨digits, hdigits⟩ := fractionPart_of_fraction hfraction (head_exponent hexponent hrest)
  obtain ⟨power, hpower⟩ := exponentPart_of_exponent hexponent hrest
  have hhead := head_fraction hfraction hexponent hrest
  rw [List.append_assoc, List.append_assoc]
  cases hwhole with
  | zero =>
    have hnone : (fraction ++ (exponent ++ rest)).head?.any isDigit = false :=
      Option.any_eq_false _ _ |>.mpr fun c hc => by simp [hhead c hc]
    rw [List.cons_append, List.nil_append]
    generalize fraction ++ (exponent ++ rest) = after at hdigits hnone ⊢
    simp [passNumber, hnone, hdigits, hpower, bind, Except.bind]
  | @digits d ds hne hds =>
    have hd : isDigit d = true := hds.2 d List.mem_cons_self
    have hdrop := dropWhile_digits hds hhead
    rw [List.cons_append] at hdrop ⊢
    simp [passNumber, hd, hdrop, hdigits, hpower, bind, Except.bind]

/-- What is written for a character is passed over. -/
theorem passTextChars_escapeChar (c : Char) (rest : List Char) :
    passTextChars (escapeChar c ++ rest) = passTextChars rest := by
  have hshort : ∀ {e : Char}, e ≠ 'u' → (shortEscape? e).isSome →
      passTextChars ('\\' :: e :: rest) = passTextChars rest := by
    intro e hu he
    rw [passTextChars.eq_def]
    simp [hu, he]
  unfold escapeChar
  split_ifs with hquote hbackslash hb hf hn hr ht hcontrol
  iterate 7 exact hshort (by decide) rfl
  · have hlt : c.toNat < 32 := hcontrol
    have hquad : ∃ n, hexQuad ('0' :: '0' :: Bytes.hexDigit (c.toNat / 16) ::
        Bytes.hexDigit (c.toNat % 16) :: rest) = .ok n := by
      have hescape := unicodeEscape_control hlt rest
      unfold unicodeEscape at hescape
      rcases hread : hexQuad ('0' :: '0' :: Bytes.hexDigit (c.toNat / 16) ::
        Bytes.hexDigit (c.toNat % 16) :: rest) with e | n
      · rw [hread] at hescape
        cases hescape
      · exact ⟨n, rfl⟩
    obtain ⟨n, hquad⟩ := hquad
    rw [passTextChars.eq_def]
    simp [hquad, bind, Except.bind]
  · rw [passTextChars.eq_def]
    simp [hquote, hbackslash, hcontrol]

theorem passTextChars_written (cs rest : List Char) :
    passTextChars (cs.flatMap escapeChar ++ '"' :: rest) = .ok rest := by
  induction cs with
  | nil =>
    rw [List.flatMap_nil, List.nil_append, passTextChars.eq_def]
    rfl
  | cons c cs ih => rw [List.flatMap_cons, List.append_assoc, passTextChars_escapeChar, ih]

/-- A scalar value is passed over. -/
theorem reads_passScalar {cs : List Char} (h : Scalar cs) : Reads passScalar cs none := by
  intro rest hrest
  cases h with
  | null | yes | no => rfl
  | @number sign whole fraction exponent hsign hwhole hfraction hexponent =>
    have hread := reads_passNumber hwhole hfraction hexponent rest hrest
    rw [List.append_assoc]
    simp only [List.mem_cons, List.not_mem_nil, or_false] at hsign
    rcases hsign with rfl | rfl
    · obtain ⟨d, more, hcons, hd⟩ : ∃ d more, whole ++ (fraction ++ exponent) ++ rest = d :: more ∧
          isDigit d = true := by
        cases hwhole with
        | zero => exact ⟨'0', _, rfl, rfl⟩
        | digits hne h => exact ⟨_, _, rfl, h.2 _ List.mem_cons_self⟩
      rw [hcons] at hread
      rw [List.nil_append, hcons]
      refine (bind_of_eq_ok (peek_cons (isGap_of_isDigit hd) more)).trans ?_
      dsimp only
      rw [if_neg (ne_of_isDigit hd rfl), if_neg (ne_of_isDigit hd rfl), if_neg (ne_of_isDigit hd rfl),
        if_neg (ne_of_isDigit hd rfl), if_pos hd]
      exact (bind_of_eq_ok hread).trans rfl
    · refine (bind_of_eq_ok (peek_cons rfl _)).trans ?_
      dsimp only
      rw [if_neg (by decide), if_neg (by decide), if_neg (by decide), if_pos rfl]
      refine (bind_of_eq_ok (advance_cons _ _)).trans ?_
      exact (bind_of_eq_ok hread).trans rfl
  | text s =>
    have hread : passText (s.toList.flatMap escapeChar ++ '"' :: rest) = .ok ((), rest) := by
      show Except.bind (passTextChars _) _ = _
      rw [passTextChars_written]
      rfl
    rw [writeText_append]
    refine (bind_of_eq_ok (peek_cons rfl _)).trans ?_
    dsimp only
    rw [if_neg (by decide), if_neg (by decide), if_neg (by decide), if_neg (by decide), if_neg (by decide),
      if_pos rfl]
    refine (bind_of_eq_ok (advance_cons _ _)).trans ?_
    exact (bind_of_eq_ok hread).trans rfl

theorem reads_passValue {cs : List Char} (h : Scalar cs) : Reads passValue cs () := by
  intro rest hrest
  show passNested (2 * (cs ++ rest).length + 1 + 1) .value [] (cs ++ rest) = _
  rw [passNested]
  refine (bind_of_eq_ok (reads_passScalar h rest hrest)).trans ?_
  rfl

/-! ### Values -/

theorem reads_quoted (s : String) : Reads quoted (writeText s) s := by
  intro rest _
  rw [writeText_append]
  refine (bind_of_eq_ok (peek_cons rfl _)).trans ?_
  refine (bind_of_eq_ok (advance_cons _ _)).trans ?_
  exact text_written s rest

theorem reads_word {n limit : Nat} (hn : n < wordLimit) (hlimit : n < limit) :
    Reads (word limit) (Text.decimal n) n := by
  intro rest hrest
  have hnumber := number_decimal hn hrest
  obtain ⟨d, hd, hpeek⟩ := peek_decimal n rest
  refine (bind_of_eq_ok hpeek).trans ?_
  dsimp only
  rw [if_pos (.inr hd)]
  refine (bind_of_eq_ok hnumber).trans ?_
  dsimp only
  rw [if_pos hlimit]
  rfl

theorem reads_choice {names : List String} (hnames : names.Nodup) (i : Fin names.length) :
    Reads (choice names) (writeText (names.get i)) i := by
  intro rest _
  rw [writeText_append]
  refine (bind_of_eq_ok (peek_cons rfl _)).trans ?_
  refine (bind_of_eq_ok (advance_cons _ _)).trans ?_
  refine (bind_of_eq_ok (text_written (names.get i) rest)).trans ?_
  rw [alternative, finIdxOf?_get hnames]
  rfl

section

variable {α : Type} {item : Reader α} {write : α → List Char}

/-- The items that come after the first one, each behind its comma. -/
theorem reads_items_more : ∀ (xs : List α) (fuel : Nat) (rest : List Char),
    (∀ x ∈ xs, Reads item (write x) x ∧ Opens (write x)) → xs.length < fuel →
      items item fuel false ((xs.map write).flatMap (',' :: ·) ++ ']' :: rest) = .ok (xs, rest) := by
  intro xs
  induction xs with
  | nil =>
    intro fuel rest _ hfuel
    obtain ⟨fuel, rfl⟩ := Nat.exists_eq_add_of_lt hfuel
    rfl
  | cons x xs ih =>
    intro fuel rest hreads hfuel
    obtain ⟨⟨hx, hopens⟩, hxs⟩ := List.forall_mem_cons.mp hreads
    obtain ⟨c, ⟨hbracket, -⟩, hpeek⟩ := hopens.peek
    rcases fuel with _ | fuel
    · exact absurd hfuel (Nat.not_lt_zero _)
    rw [List.map_cons, List.flatMap_cons, List.cons_append, List.cons_append, List.append_assoc, items]
    refine (bind_of_eq_ok (peek_cons rfl _)).trans ?_
    dsimp only
    rw [if_neg (by decide), if_neg Bool.false_ne_true, if_pos rfl]
    refine (bind_of_eq_ok (advance_cons _ _)).trans ?_
    refine (bind_of_eq_ok (hpeek _)).trans ?_
    dsimp only
    rw [if_neg hbracket]
    refine (bind_of_eq_ok (hx _ (ends_more (.inl rfl) _ rest))).trans ?_
    exact (bind_of_eq_ok (ih fuel rest hxs (Nat.lt_of_succ_lt_succ hfuel))).trans rfl

theorem reads_array {xs : List α} (hreads : ∀ x ∈ xs, Reads item (write x) x ∧ Opens (write x)) :
    Reads (array item) ('[' :: separated (xs.map write) ++ [']']) xs := by
  intro rest _
  rw [List.cons_append, List.cons_append, List.append_assoc]
  refine (bind_of_eq_ok (peek_cons rfl _)).trans ?_
  refine (bind_of_eq_ok (advance_cons _ _)).trans ?_
  cases xs with
  | nil => rfl
  | cons x xs =>
    obtain ⟨⟨hx, hopens⟩, hxs⟩ := List.forall_mem_cons.mp hreads
    obtain ⟨c, ⟨hbracket, -⟩, hpeek⟩ := hopens.peek
    rw [List.map_cons, separated_cons, List.append_assoc, items]
    refine (bind_of_eq_ok (hpeek _)).trans ?_
    dsimp only
    rw [if_neg hbracket, if_pos rfl]
    refine (bind_of_eq_ok (hx _ (ends_more (.inl rfl) _ rest))).trans ?_
    refine (bind_of_eq_ok (reads_items_more xs _ rest hxs ?_)).trans rfl
    have hcommas := length_le_commas (xs.map write)
    rw [List.length_map] at hcommas
    simp only [List.length_append, List.length_cons]
    omega

end

/-- Null is written for nothing but an empty optional value. -/
theorem exists_head_writeValue {k : Kind} (hk : k.isOptional = false) (x : k.Val) :
    ∃ c cs, writeValue k x = c :: cs ∧ isGap c = false ∧ c ≠ 'n' := by
  have hdecimal : ∀ n, ∃ c cs, Text.decimal n = c :: cs ∧ isGap c = false ∧ c ≠ 'n' := by
    intro n
    obtain ⟨d, ds, hwrite, hd⟩ := exists_decimal n
    exact ⟨d, ds, hwrite, isGap_of_isDigit hd, ne_of_isDigit hd rfl⟩
  cases k with
  | byte | word32 | word64 => exact hdecimal _
  | text | time | choice => exact ⟨'"', _, rfl, rfl, by decide⟩
  | list item => exact ⟨'[', _, rfl, rfl, by decide⟩
  | optional item => cases hk

/-- A value is read back. -/
theorem reads_value {k : Kind} (hk : k.Unambiguous) (x : k.Val) : Reads (value k) (writeValue k x) x := by
  induction k with
  | byte =>
    intro rest hrest
    have hn := UInt8.toNat_lt x
    refine (bind_of_eq_ok (reads_word (Nat.lt_trans hn (by decide)) hn rest hrest)).trans ?_
    exact congrArg (fun n => Except.ok (n, rest)) UInt8.ofNat_toNat
  | word32 =>
    intro rest hrest
    have hn := UInt32.toNat_lt x
    refine (bind_of_eq_ok (reads_word (Nat.lt_trans hn (by decide)) hn rest hrest)).trans ?_
    exact congrArg (fun n => Except.ok (n, rest)) UInt32.ofNat_toNat
  | word64 =>
    intro rest hrest
    have hn := UInt64.toNat_lt x
    refine (bind_of_eq_ok (reads_word hn hn rest hrest)).trans ?_
    exact congrArg (fun n => Except.ok (n, rest)) UInt64.ofNat_toNat
  | text => exact reads_quoted x
  | time =>
    intro rest hrest
    refine (bind_of_eq_ok (reads_quoted _ rest hrest)).trans ?_
    rw [Time.Rfc3339.read?_write]
    rfl
  | list item ih => exact reads_array fun y _ => ⟨ih hk y, opens_writeValue item y⟩
  | optional item ih =>
    obtain ⟨hitem, hk⟩ := hk
    rcases x with _ | x
    · exact fun rest _ => rfl
    · intro rest hrest
      obtain ⟨c, cs, hwrite, hgap, hnull⟩ := exists_head_writeValue hitem x
      have hread := ih hk x rest hrest
      show (peek >>= _) (writeValue item x ++ rest) = _
      rw [hwrite] at hread ⊢
      have hsome : (do return some (← value item)) (c :: cs ++ rest) = .ok (some x, rest) :=
        (bind_of_eq_ok hread).trans rfl
      refine (bind_of_eq_ok (peek_cons hgap _)).trans (Eq.trans (congrFun ?_ _) hsome)
      split
      · next heq => exact absurd (Option.some.inj heq) hnull
      · rfl
  | choice names => exact reads_choice hk x

/-! ### Members -/

/-- The members of a row, each a field's name and the form of its value. -/
def forms : (fs : List Field) → Row fs → List (String × List Char)
  | [], _ => []
  | f :: fs, (x, row) => (f.name, writeValue f.kind x) :: forms fs row

/-- A member as it stands in an object. -/
def memberForm (m : String × List Char) : List Char :=
  writeText m.1 ++ ':' :: m.2

/-- An object with these members. -/
def objectForm (ms : List (String × List Char)) : List Char :=
  '\x7b' :: separated (ms.map memberForm) ++ ['\x7d']

/-- A name that no field has, with a scalar value. -/
def Strange (fs : List Field) (m : String × List Char) : Prop :=
  m.1 ∉ fs.map Field.name ∧ Scalar m.2

/-- The field of that name says nothing but its default. -/
def IsDefault : (fs : List Field) → Row fs → String → Prop
  | [], _, _ => False
  | f :: fs, (x, row), name => f.name = name ∧ f.default = some x ∨ IsDefault fs row name

/-- The members are those of the row, in any order, without some that say nothing but a default and with
others besides that have strange names. -/
structure Arranged (fs : List Field) (row : Row fs) (omitted : List String)
    (ms : List (String × List Char)) : Prop where
  isDefault : ∀ name ∈ omitted, IsDefault fs row name
  members : ∃ added, (∀ m ∈ added, Strange fs m) ∧
    ms.Perm ((forms fs row).filter (fun m => m.1 ∉ omitted) ++ added)

theorem writeRow_eq (fs : List Field) (row : Row fs) : writeRow fs row = objectForm (forms fs row) := by
  have hmembers : writeMembers fs row = (forms fs row).map memberForm := by
    induction fs with
    | nil => rfl
    | cons f fs ih => rw [writeMembers, ih row.2, forms, List.map_cons, memberForm]
  rw [writeRow, hmembers, objectForm]

theorem map_fst_forms (fs : List Field) (row : Row fs) : (forms fs row).map Prod.fst = fs.map Field.name := by
  induction fs with
  | nil => rfl
  | cons f fs ih => rw [forms, List.map_cons, List.map_cons, ih row.2]

theorem member_of_ne {name : String} {f : Field} (h : name ≠ f.name) (fs : List Field)
    (old : Option f.kind.Val) (rest : Partial fs) :
    member name (f :: fs) (old, rest) = (member name fs rest).map fun read => do return (old, ← read) :=
  if_neg h.symm

theorem member_of_notMem {name : String} {fs : List Field} (h : name ∉ fs.map Field.name)
    (known : Partial fs) : member name fs known = none := by
  induction fs with
  | nil => rfl
  | cons f fs ih =>
    rw [List.map_cons, List.mem_cons, not_or] at h
    rw [member_of_ne h.1, ih h.2]
    rfl

theorem Reads.map {α β : Type} {read : Reader α} {cs : List Char} {a : α} (f : α → β) (h : Reads read cs a) :
    Reads (do return f (← read)) cs (f a) :=
  fun rest hrest => (bind_of_eq_ok (h rest hrest)).trans rfl

/-- A member of the row fills its field, if it is not filled yet, and no other one. -/
theorem member_gathered {names : List String} {fs : List Field} (hfs : Unambiguous fs) {row : Row fs}
    {m : String × List Char} (hm : m ∈ forms fs row) (hnew : m.1 ∉ names) :
    ∃ read, member m.1 fs (gathered names fs row) = some read ∧
      Reads read (':' :: m.2) (gathered (m.1 :: names) fs row) := by
  induction fs with
  | nil => cases hm
  | cons f fs ih =>
    obtain ⟨x, row⟩ := row
    have hfirst : f.name ∉ fs.map Field.name := (List.nodup_cons.mp hfs.names).1
    rcases List.mem_cons.mp hm with rfl | hm
    · refine ⟨_, if_pos rfl, fun rest hrest => ?_⟩
      have hvalue := reads_value (hfs.kinds f List.mem_cons_self) x rest hrest
      simp only [gathered, hnew, if_false, List.mem_cons_self, if_true, gathered_cons_of_notMem hfirst]
      refine (bind_of_eq_ok (expectColon_cons _)).trans ?_
      exact (bind_of_eq_ok hvalue).trans rfl
    · obtain ⟨read, hmember, hread⟩ := ih hfs.tail hm
      have hne : m.1 ≠ f.name := fun heq =>
        hfirst (heq ▸ map_fst_forms fs row ▸ List.mem_map_of_mem hm)
      have hsame : gathered (m.1 :: names) (f :: fs) (x, row) =
          (if f.name ∈ names then some x else none, gathered (m.1 :: names) fs row) := by
        simp [gathered, hne.symm]
      rw [hsame]
      refine ⟨_, ?_, hread.map (Prod.mk (if f.name ∈ names then some x else none))⟩
      rw [gathered, member_of_ne hne, hmember]
      rfl

/-- Reads what follows the name of a member. -/
def afterName (fs : List Field) (known : Partial fs) (name : String) : Reader (Partial fs) :=
  match member name fs known with
  | some read => read
  | none => do
    expectColon
    passValue
    return known

/-- A member of the row or a strange one makes known what it says. -/
theorem reads_afterName {names : List String} {fs : List Field} (hfs : Unambiguous fs) {row : Row fs}
    {m : String × List Char} (hm : m ∈ forms fs row ∨ Strange fs m)
    (hnew : m.1 ∈ fs.map Field.name → m.1 ∉ names) :
    Reads (afterName fs (gathered names fs row) m.1) (':' :: m.2) (gathered (m.1 :: names) fs row) := by
  unfold afterName
  rcases hm with hm | ⟨hstrange, hscalar⟩
  · obtain ⟨read, hmember, hread⟩ :=
      member_gathered hfs hm (hnew (map_fst_forms fs row ▸ List.mem_map_of_mem hm))
    rw [hmember]
    exact hread
  · intro rest hrest
    rw [member_of_notMem hstrange, gathered_cons_of_notMem hstrange]
    refine (bind_of_eq_ok (expectColon_cons _)).trans ?_
    exact (bind_of_eq_ok (reads_passValue hscalar rest hrest)).trans rfl

variable {fs : List Field} {rest : List Char}

/-- The members end with the brace. -/
theorem members_close (fuel : Nat) (first : Bool) (known : Partial fs) :
    members fs (fuel + 1) first known ('\x7d' :: rest) = .ok (known, '\x7d' :: rest) := by
  rw [members]
  exact (bind_of_eq_ok (peek_cons rfl _)).trans rfl

/-- One member, which comes behind a comma if it is not the first one. -/
theorem members_step (fuel : Nat) (first : Bool) (known : Partial fs) (m : String × List Char) :
    members fs (fuel + 1) first known ((if first then [] else [',']) ++ (memberForm m ++ rest)) =
      (afterName fs known m.1 >>= members fs fuel false) (':' :: m.2 ++ rest) := by
  have hname : memberForm m ++ rest = '"' :: (m.1.toList.flatMap escapeChar ++ '"' :: (':' :: m.2 ++ rest)) := by
    rw [memberForm, List.append_assoc, writeText_append]
  have hafter : (match member m.1 fs known with
      | some read => do members fs fuel false (← read)
      | none => do
        expectColon
        passValue
        members fs fuel false (← pure known)) = afterName fs known m.1 >>= members fs fuel false := by
    unfold afterName
    rcases member m.1 fs known with _ | read
    · simp only [bind_assoc, pure_bind]
    · rfl
  rw [hname, members]
  cases first with
  | true =>
    refine (bind_of_eq_ok (peek_cons rfl _)).trans ?_
    refine (bind_of_eq_ok (peek_cons rfl _)).trans ?_
    refine (bind_of_eq_ok (advance_cons _ _)).trans ?_
    refine (bind_of_eq_ok (text_written m.1 _)).trans ?_
    exact congrFun hafter _
  | false =>
    refine (bind_of_eq_ok (peek_cons rfl _)).trans ?_
    refine (bind_of_eq_ok (advance_cons _ _)).trans ?_
    refine (bind_of_eq_ok (peek_cons rfl _)).trans ?_
    refine (bind_of_eq_ok (advance_cons _ _)).trans ?_
    refine (bind_of_eq_ok (text_written m.1 _)).trans ?_
    exact congrFun hafter _

/-- Members of the row and strange ones, in any order, make known the fields that they name. The first of them
comes without a comma. -/
theorem members_gathered (hfs : Unambiguous fs) {row : Row fs} (rest : List Char) :
    ∀ (ms : List (String × List Char)) (names : List String) (fuel : Nat) (first : Bool),
      (∀ m ∈ ms, m ∈ forms fs row ∨ Strange fs m) →
      (ms.Pairwise fun m m' => m.1 = m'.1 → m.1 ∉ fs.map Field.name) →
      (∀ m ∈ ms, m.1 ∈ fs.map Field.name → m.1 ∉ names) → ms.length < fuel →
      members fs fuel first (gathered names fs row)
          ((if first then separated (ms.map memberForm) else (ms.map memberForm).flatMap (',' :: ·)) ++
            '\x7d' :: rest) =
        .ok (gathered (ms.map Prod.fst ++ names) fs row, '\x7d' :: rest) := by
  intro ms
  induction ms with
  | nil =>
    intro names fuel first _ _ _ hfuel
    rcases fuel with _ | fuel
    · exact absurd hfuel (Nat.not_lt_zero _)
    · cases first <;> exact members_close fuel _ _
  | cons m ms ih =>
    intro names fuel first hms honce hnew hfuel
    obtain ⟨hm, hms⟩ := List.forall_mem_cons.mp hms
    obtain ⟨hfirst, honce⟩ := List.pairwise_cons.mp honce
    rcases fuel with _ | fuel
    · exact absurd hfuel (Nat.not_lt_zero _)
    have hread := reads_afterName hfs hm (hnew m List.mem_cons_self)
    have hrest := ih (m.1 :: names) fuel false hms honce (fun m' hm' hknown => by
      have hne : m'.1 ≠ m.1 := fun heq => hfirst m' hm' heq.symm (heq ▸ hknown)
      have hold := hnew m' (List.mem_cons_of_mem _ hm') hknown
      simp [hne, hold]) (Nat.lt_of_succ_lt_succ hfuel)
    have hperm : gathered (ms.map Prod.fst ++ m.1 :: names) fs row =
        gathered ((m :: ms).map Prod.fst ++ names) fs row :=
      gathered_congr row fun f _ => by simp; tauto
    have hform : (if first then separated ((m :: ms).map memberForm)
          else ((m :: ms).map memberForm).flatMap (',' :: ·)) ++ '\x7d' :: rest =
        (if first then [] else [',']) ++
          (memberForm m ++ ((ms.map memberForm).flatMap (',' :: ·) ++ '\x7d' :: rest)) := by
      cases first
      · simp
      · simp [separated_cons]
    rw [hform, members_step, ← hperm]
    exact (bind_of_eq_ok (hread _ (ends_more (.inr rfl) _ rest))).trans hrest

/-! ### Records -/

variable {row : Row fs} {ms : List (String × List Char)}

theorem IsDefault.mem_names {name : String} (h : IsDefault fs row name) : name ∈ fs.map Field.name := by
  induction fs with
  | nil => exact h.elim
  | cons f fs ih =>
    rcases h with ⟨rfl, -⟩ | h
    · exact List.mem_cons_self
    · exact List.mem_cons_of_mem _ (ih h)

theorem IsDefault.head {f : Field} {x : f.kind.Val} (hfs : Unambiguous (f :: fs))
    (h : IsDefault (f :: fs) (x, row) f.name) : f.default = some x := by
  rcases h with ⟨-, h⟩ | h
  · exact h
  · exact absurd h.mem_names (List.nodup_cons.mp hfs.names).1

theorem IsDefault.tail {name : String} {f : Field} {x : f.kind.Val} (h : IsDefault (f :: fs) (x, row) name)
    (hfs : Unambiguous (f :: fs)) (hmem : name ∈ fs.map Field.name) : IsDefault fs row name := by
  rcases h with ⟨rfl, -⟩ | h
  · exact absurd hmem (List.nodup_cons.mp hfs.names).1
  · exact h

theorem IsDefault.isSome {f : Field} (h : IsDefault fs row f.name) (hfs : Unambiguous fs) (hf : f ∈ fs) :
    f.default.isSome := by
  induction fs with
  | nil => cases hf
  | cons g fs ih =>
    rcases List.mem_cons.mp hf with rfl | hf
    · rw [h.head hfs]
      rfl
    · exact ih (h.tail hfs (List.mem_map_of_mem hf)) hfs.tail hf

/-- Defaults do not change what says nothing else. -/
theorem reset_of_isDefault {omitted : List String} (hfs : Unambiguous fs)
    (h : ∀ name ∈ omitted, name ∈ fs.map Field.name → IsDefault fs row name) : Row.reset omitted fs row = row := by
  induction fs with
  | nil => rfl
  | cons f fs ih =>
    obtain ⟨x, row⟩ := row
    have hrest : Row.reset omitted fs row = row := ih hfs.tail fun name hname hmem =>
      (h name hname (List.mem_cons_of_mem _ hmem)).tail hfs hmem
    rw [Row.reset, hrest]
    by_cases homitted : f.name ∈ omitted
    · rw [if_pos homitted, (h f.name homitted List.mem_cons_self).head hfs]
      rfl
    · rw [if_neg homitted]

variable {omitted : List String}

theorem Arranged.member_cases (h : Arranged fs row omitted ms) {m : String × List Char} (hm : m ∈ ms) :
    m ∈ forms fs row ∧ m.1 ∉ omitted ∨ Strange fs m := by
  obtain ⟨added, hadded, hperm⟩ := h.members
  rcases List.mem_append.mp (hperm.mem_iff.mp hm) with hkept | hmem
  · obtain ⟨hmem, hkept⟩ := List.mem_filter.mp hkept
    exact .inl ⟨hmem, of_decide_eq_true hkept⟩
  · exact .inr (hadded m hmem)

/-- What is given is what is not omitted. -/
theorem Arranged.mem_names_iff (h : Arranged fs row omitted ms) {f : Field} (hf : f ∈ fs) :
    f.name ∈ ms.map Prod.fst ↔ f.name ∉ omitted := by
  have hname : f.name ∈ fs.map Field.name := List.mem_map_of_mem hf
  constructor
  · intro hmem
    obtain ⟨m, hm, hsame⟩ := List.mem_map.mp hmem
    rcases h.member_cases hm with ⟨-, hkept⟩ | ⟨hstrange, -⟩
    · exact hsame ▸ hkept
    · exact absurd (hsame ▸ hname) hstrange
  · intro hkept
    obtain ⟨added, -, hperm⟩ := h.members
    rw [← map_fst_forms fs row] at hname
    obtain ⟨m, hm, hsame⟩ := List.mem_map.mp hname
    have hmem : m ∈ ms := hperm.mem_iff.mpr
      (List.mem_append_left _ (List.mem_filter.mpr ⟨hm, by simpa [hsame] using hkept⟩))
    exact List.mem_map.mpr ⟨m, hmem, hsame⟩

/-- No field is given twice. -/
theorem Arranged.once (h : Arranged fs row omitted ms) (hfs : Unambiguous fs) :
    ms.Pairwise fun m m' => m.1 = m'.1 → m.1 ∉ fs.map Field.name := by
  obtain ⟨added, hadded, hperm⟩ := h.members
  refine (hperm.pairwise_iff fun hxy heq => heq ▸ hxy heq.symm).mpr (List.pairwise_append.mpr ⟨?_, ?_, ?_⟩)
  · have hnames : ((forms fs row).map Prod.fst).Nodup := map_fst_forms fs row ▸ hfs.names
    exact ((List.pairwise_map.mp hnames).filter _).imp fun hne heq => absurd heq hne
  · exact List.pairwise_of_forall_mem_list fun m hm m' _ _ => (hadded m hm).1
  · exact fun m _ m' hm' heq => heq ▸ (hadded m' hm').1

/-- Reads the members of an object whose opening brace has been passed. -/
def allMembers (fs : List Field) : Reader (Partial fs) := fun cs =>
  members fs (cs.length + 1) true (Partial.empty fs) cs

/-- The members of an arrangement make known what the row says beyond defaults. -/
theorem allMembers_arranged (hfs : Unambiguous fs) (h : Arranged fs row omitted ms) (rest : List Char) :
    allMembers fs (separated (ms.map memberForm) ++ '\x7d' :: rest) =
      .ok (gathered (ms.map Prod.fst) fs row, '\x7d' :: rest) := by
  have hfuel : ms.length < (separated (ms.map memberForm) ++ '\x7d' :: rest).length + 1 := by
    cases ms with
    | nil => exact Nat.zero_lt_succ _
    | cons m ms =>
      have hcommas := length_le_commas (ms.map memberForm)
      rw [List.length_map] at hcommas
      rw [List.map_cons, separated_cons]
      simp only [List.length_append, List.length_cons]
      omega
  have hread := members_gathered hfs rest ms [] _ true (fun m hm => (h.member_cases hm).imp_left And.left)
    (h.once hfs) (fun _ _ _ => List.not_mem_nil) hfuel
  rwa [gathered_nil, List.append_nil] at hread

/-- A row is read from any arrangement of its members. -/
theorem reads_row_arranged (hfs : Unambiguous fs) (h : Arranged fs row omitted ms) :
    Reads (Json.row fs) (objectForm ms) row := by
  have hcomplete := complete?_gathered row (fun f hf => h.mem_names_iff hf) fun f hf hmem =>
    (h.isDefault _ hmem).isSome hfs hf
  rw [reset_of_isDefault hfs fun name hname _ => h.isDefault name hname] at hcomplete
  intro rest _
  rw [objectForm, List.cons_append, List.cons_append, List.append_assoc]
  refine (bind_of_eq_ok (peek_cons rfl _)).trans ?_
  refine (bind_of_eq_ok (advance_cons _ _)).trans ?_
  refine (bind_of_eq_ok (allMembers_arranged hfs h rest)).trans ?_
  rw [hcomplete]
  rfl

theorem document_arranged (hfs : Unambiguous fs) (h : Arranged fs row omitted ms) :
    document (Json.row fs) (objectForm ms) = .ok row := by
  have hread := reads_row_arranged hfs h [] nofun
  rw [List.append_nil] at hread
  rw [document, hread]
  rfl

/-- The members of a row in their order are an arrangement of it. -/
theorem arranged_forms (fs : List Field) (row : Row fs) : Arranged fs row [] (forms fs row) := by
  refine ⟨nofun, [], nofun, ?_⟩
  rw [List.append_nil, List.filter_eq_self.mpr fun m _ => by simp]

end Gatehouse.Json
