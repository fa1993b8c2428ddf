import Gatehouse.Proofs.Json.ReadBack

/-!
# What a document says

`parseTree_render`: a reader that knows nothing of a record's schema reads from the text of the record an
object which has the members of the schema, with their values, and no others.

Proof. A reader that takes a written form off the front of a document, as long as what follows cannot belong
to a number (`Reads`), can be put together from readers of its parts. In a sequence what follows an item is a
comma or a closing bracket (`reads_sequence`). A value is written longer than its parts are, so that the depth
to which the reader goes is enough (`reads_tree`).
-/

namespace Gatehouse.Json

open Text (isDigit isDigit_of_mem_decimal)

/-! ### Documents of any form -/

/-- What a document stands for. -/
inductive Tree where
  | null
  | bool (value : Bool)
  /-- A natural number of 64 bits has its value; any other number has none. -/
  | number (value : Option Nat)
  | text (value : String)
  | array (items : List Tree)
  /-- The members in their order, those of the same name included. -/
  | object (members : List (String × Tree))

/-- Reads items with commas between them up to a closing bracket. -/
def sequence {α : Type} (close : Char) (item : Reader α) : (fuel : Nat) → (first : Bool) → Reader (List α)
  | 0, _ => throw .unfinished
  | fuel + 1, first => do
    match ← peek with
    | none => throw .unfinished
    | some c =>
      if c = close then advance; return []
      else if first then
        let x ← item
        return x :: (← sequence close item fuel false)
      else if c = ',' then
        advance
        let x ← item
        return x :: (← sequence close item fuel false)
      else throw .malformed

/-- Reads the items of a sequence whose opening bracket has been passed. -/
def bracketed {α : Type} (close : Char) (item : Reader α) : Reader (List α) := fun cs =>
  sequence close item (cs.length + 1) true cs

/-- Reads a member of an object. -/
def entry (value : Reader Tree) : Reader (String × Tree) := do
  match ← peek with
  | some '"' =>
    advance
    let name ← text
    expectColon
    return (name, ← value)
  | some _ => throw .malformed
  | none => throw .unfinished

/-- Reads any value that is not too deep. -/
def tree : (depth : Nat) → Reader Tree
  | 0 => throw .unfinished
  | depth + 1 => do
    match ← peek with
    | none => throw .unfinished
    | some c =>
      if c = 'n' then expectChars ['n', 'u', 'l', 'l']; return .null
      else if c = 't' then expectChars ['t', 'r', 'u', 'e']; return .bool true
      else if c = 'f' then expectChars ['f', 'a', 'l', 's', 'e']; return .bool false
      else if c = '-' ∨ isDigit c then return .number (← number)
      else if c = '"' then advance; return .text (← text)
      else if c = '[' then advance; return .array (← bracketed ']' (tree depth))
      else if c = '{' then advance; return .object (← bracketed '}' (entry (tree depth)))
      else throw .malformed

/-- Reads a whole document. -/
def parseTree (source : String) : Except Failure Tree :=
  document (fun cs => tree (cs.length + 1) cs) source.toList

namespace Tree

/-- What the written form of a value stands for. -/
def ofValue : (k : Kind) → k.Val → Tree
  | .byte, n => .number (some (UInt8.toNat n))
  | .word32, n => .number (some (UInt32.toNat n))
  | .word64, n => .number (some (UInt64.toNat n))
  | .text, s => .text s
  | .time, t => .text (Time.Rfc3339.write t)
  | .list item, xs => .array ((xs : List item.Val).map (ofValue item))
  | .optional item, x =>
    match (x : Option item.Val) with
    | none => .null
    | some x => ofValue item x
  | .choice names, i => .text (names.get i)

/-- The members that the written form of a row has. -/
def ofMembers : (fs : List Field) → Row fs → List (String × Tree)
  | [], _ => []
  | f :: fs, (x, row) => (f.name, ofValue f.kind x) :: ofMembers fs row

/-- What the text of a record stands for. -/
def ofRecord {α : Type} [Record α] (a : α) : Tree :=
  .object (ofMembers (Record.fields α) (Record.toRow a))

end Tree

/-! ### Readers of written forms -/

/-- The reader takes just these characters off the front of any document in which what follows cannot be
a part of a number, and gives this. -/
def Reads {α : Type} (read : Reader α) (cs : List Char) (a : α) : Prop :=
  ∀ rest, Ends rest → read (cs ++ rest) = .ok (a, rest)

section

variable {α β : Type} {read : Reader α} {cs cs' : List Char} {a : α}

theorem bind_of_eq_ok {next : α → Reader β} (h : read cs = .ok (a, cs')) : (read >>= next) cs = next a cs' := by
  show Except.bind (read cs) _ = _
  rw [h]
  rfl

theorem peek_cons {c : Char} (h : isGap c = false) (rest : List Char) :
    peek (c :: rest) = .ok (some c, c :: rest) := by
  rw [peek, List.dropWhile_cons_of_neg (by rw [h]; decide)]
  rfl

theorem advance_cons (c : Char) (rest : List Char) : advance (c :: rest) = .ok ((), rest) :=
  rfl

theorem expectColon_cons (rest : List Char) : expectColon (':' :: rest) = .ok ((), rest) :=
  rfl

theorem ends_cons {c : Char} (h : c = ',' ∨ c = ']' ∨ c = '}') (rest : List Char) : Ends (c :: rest) := by
  intro d hd
  cases hd
  rcases h with rfl | rfl | rfl <;> decide

/-- A part of a sequence begins with a character that is no blank and does not end the sequence. -/
def Opens (part : List Char) : Prop :=
  ∃ c cs, part = c :: cs ∧ isGap c = false ∧ c ≠ ']' ∧ c ≠ '}'

/-- A reader sees that the sequence goes on. -/
theorem Opens.peek {part : List Char} (h : Opens part) : ∃ c, (c ≠ ']' ∧ c ≠ '}') ∧
    ∀ rest, peek (part ++ rest) = .ok (some c, part ++ rest) := by
  obtain ⟨c, cs, rfl, hgap, hends⟩ := h
  exact ⟨c, hends, fun rest => peek_cons hgap _⟩

/-! ### Sequences -/

theorem separated_cons (part : List Char) (more : List (List Char)) :
    separated (part :: more) = part ++ more.flatMap (',' :: ·) := by
  induction more generalizing part with
  | nil => exact (List.append_nil part).symm
  | cons next more ih =>
    rw [separated, ih, List.flatMap_cons]
    · simp
    · nofun

/-- An item is followed by a comma or by the closing bracket. -/
theorem ends_more {close : Char} (hclose : close = ']' ∨ close = '}') (parts : List (List Char))
    (rest : List Char) : Ends (parts.flatMap (',' :: ·) ++ close :: rest) := by
  cases parts with
  | nil => exact ends_cons (.inr hclose) rest
  | cons part parts => exact ends_cons (.inl rfl) _

theorem length_le_separated {part : List Char} {parts : List (List Char)} (h : part ∈ parts) :
    part.length ≤ (separated parts).length := by
  cases parts with
  | nil => cases h
  | cons first more =>
    rw [separated_cons, List.length_append]
    rcases List.mem_cons.mp h with rfl | hmem
    · omega
    · have hle := List.sublist_flatten_of_mem (List.mem_map_of_mem (f := (',' :: ·)) hmem)
      have hlength := hle.length_le
      rw [List.flatMap_def]
      rw [List.length_cons] at hlength
      omega

theorem length_le_commas (parts : List (List Char)) :
    parts.length ≤ (parts.flatMap (',' :: ·)).length := by
  induction parts with
  | nil => exact Nat.le_refl 0
  | cons part parts ih =>
    rw [List.flatMap_cons, List.length_append, List.length_cons, List.length_cons]
    omega

variable {item : Reader α} {write : β → List Char} {value : β → α} {close : Char}

/-- The items that come after the first one, each behind its comma. -/
theorem reads_more (hclose : close = ']' ∨ close = '}') :
    ∀ (xs : List β) (fuel : Nat) (rest : List Char), (∀ x ∈ xs, Reads item (write x) (value x)) →
      xs.length < fuel →
      sequence close item fuel false ((xs.map write).flatMap (',' :: ·) ++ close :: rest) =
        .ok (xs.map value, rest) := by
  have hgap : isGap close = false := by rcases hclose with rfl | rfl <;> rfl
  have hcomma : ',' ≠ close := by rcases hclose with rfl | rfl <;> decide
  intro xs
  induction xs with
  | nil =>
    intro fuel rest _ hfuel
    obtain ⟨fuel, rfl⟩ := Nat.exists_eq_add_of_lt hfuel
    rw [sequence]
    refine (bind_of_eq_ok (peek_cons hgap rest)).trans ?_
    dsimp only
    rw [if_pos rfl]
    rfl
  | cons x xs ih =>
    intro fuel rest hreads hfuel
    obtain ⟨hx, hxs⟩ := List.forall_mem_cons.mp hreads
    rcases fuel with _ | fuel
    · exact absurd hfuel (Nat.not_lt_zero _)
    rw [List.map_cons, List.flatMap_cons, List.cons_append, List.cons_append, List.append_assoc, sequence]
    refine (bind_of_eq_ok (peek_cons rfl _)).trans ?_
    dsimp only
    rw [if_neg hcomma, if_neg Bool.false_ne_true, if_pos rfl]
    refine (bind_of_eq_ok (advance_cons _ _)).trans ?_
    refine (bind_of_eq_ok (hx _ (ends_more hclose _ rest))).trans ?_
    refine (bind_of_eq_ok (ih fuel rest hxs (Nat.lt_of_succ_lt_succ hfuel))).trans ?_
    rfl

/-- A sequence is read back up to its closing bracket. -/
theorem reads_sequence (hclose : close = ']' ∨ close = '}') {xs : List β}
    (hreads : ∀ x ∈ xs, Reads item (write x) (value x)) (hopens : ∀ x ∈ xs, Opens (write x))
    (rest : List Char) :
    bracketed close item (separated (xs.map write) ++ close :: rest) = .ok (xs.map value, rest) := by
  have hgap : isGap close = false := by rcases hclose with rfl | rfl <;> rfl
  unfold bracketed
  cases xs with
  | nil =>
    rw [sequence]
    refine (bind_of_eq_ok (peek_cons hgap rest)).trans ?_
    dsimp only
    rw [if_pos rfl]
    rfl
  | cons x xs =>
    obtain ⟨hx, hxs⟩ := List.forall_mem_cons.mp hreads
    obtain ⟨c, ⟨hbracket, hbrace⟩, hpeek⟩ := (hopens x List.mem_cons_self).peek
    have hne : c ≠ close := by rcases hclose with rfl | rfl <;> assumption
    rw [List.map_cons, separated_cons, List.append_assoc, sequence]
    refine (bind_of_eq_ok (hpeek _)).trans ?_
    dsimp only
    rw [if_neg hne, if_pos rfl]
    refine (bind_of_eq_ok (hx _ (ends_more hclose _ rest))).trans ?_
    refine (bind_of_eq_ok (reads_more hclose xs _ rest hxs ?_)).trans rfl
    have hcommas := length_le_commas (xs.map write)
    rw [List.length_map] at hcommas
    simp only [List.length_append, List.length_cons]
    omega

end

/-! ### Values -/

theorem writeText_append (s : String) (rest : List Char) :
    writeText s ++ rest = '"' :: (s.toList.flatMap escapeChar ++ '"' :: rest) := by
  rw [writeText, List.cons_append, List.cons_append, List.append_assoc]
  rfl

theorem text_written (s : String) (rest : List Char) :
    text (s.toList.flatMap escapeChar ++ '"' :: rest) = .ok (s, rest) := by
  show Except.bind (textChars _) _ = _
  rw [textChars_written]
  exact congrArg (fun t => Except.ok (t, rest)) String.ofList_toList

theorem opens_writeText (s : String) : Opens (writeText s) :=
  ⟨'"', _, rfl, rfl, by decide, by decide⟩

theorem ne_of_isDigit {c d : Char} (hd : isDigit d = true) (hc : isDigit c = false) : d ≠ c := by
  rintro rfl
  rw [hd] at hc
  cases hc

theorem isGap_of_isDigit {d : Char} (h : isDigit d = true) : isGap d = false := by
  have hne (c : Char) (hc : isDigit c = false) : d ≠ c := ne_of_isDigit h hc
  simp [isGap, hne ' ' rfl, hne '\n' rfl, hne '\t' rfl, hne '\r' rfl]

theorem exists_decimal (n : Nat) : ∃ d ds, Text.decimal n = d :: ds ∧ isDigit d = true := by
  rcases hds : Text.decimal n with _ | ⟨d, ds⟩
  · exact absurd hds Nat.toDigits_ne_nil
  · exact ⟨d, ds, rfl, isDigit_of_mem_decimal (n := n) (hds ▸ List.mem_cons_self)⟩

theorem opens_decimal (n : Nat) : Opens (Text.decimal n) := by
  obtain ⟨d, ds, hwrite, hd⟩ := exists_decimal n
  exact ⟨d, ds, hwrite, isGap_of_isDigit hd, ne_of_isDigit hd rfl, ne_of_isDigit hd rfl⟩

/-- A reader sees a digit where a number begins. -/
theorem peek_decimal (n : Nat) (rest : List Char) : ∃ d, isDigit d = true ∧
    peek (Text.decimal n ++ rest) = .ok (some d, Text.decimal n ++ rest) := by
  obtain ⟨d, ds, hwrite, hd⟩ := exists_decimal n
  rw [hwrite]
  exact ⟨d, hd, peek_cons (isGap_of_isDigit hd) _⟩

theorem opens_writeValue (k : Kind) (x : k.Val) : Opens (writeValue k x) := by
  induction k with
  | byte | word32 | word64 => exact opens_decimal _
  | text | time | choice => exact opens_writeText _
  | list item ih => exact ⟨'[', _, rfl, rfl, by decide, by decide⟩
  | optional item ih =>
    rcases x with _ | x
    · exact ⟨'n', _, rfl, rfl, by decide, by decide⟩
    · exact ih x

theorem reads_tree_text (s : String) (depth : Nat) : Reads (tree (depth + 1)) (writeText s) (.text s) := by
  intro rest _
  rw [writeText_append, tree]
  refine (bind_of_eq_ok (peek_cons rfl _)).trans ?_
  dsimp only
  rw [if_neg (by decide), if_neg (by decide), if_neg (by decide), if_neg (by decide), if_pos rfl]
  refine (bind_of_eq_ok (advance_cons _ _)).trans ?_
  exact (bind_of_eq_ok (text_written s rest)).trans rfl

theorem reads_tree_decimal {n : Nat} (hn : n < wordLimit) (depth : Nat) :
    Reads (tree (depth + 1)) (Text.decimal n) (.number (some n)) := by
  intro rest hrest
  have hnumber := number_decimal hn hrest
  obtain ⟨d, hd, hpeek⟩ := peek_decimal n rest
  rw [tree]
  refine (bind_of_eq_ok hpeek).trans ?_
  dsimp only
  rw [if_neg (ne_of_isDigit hd rfl), if_neg (ne_of_isDigit hd rfl), if_neg (ne_of_isDigit hd rfl),
    if_pos (.inr hd)]
  exact (bind_of_eq_ok hnumber).trans rfl

theorem reads_tree_null (depth : Nat) : Reads (tree (depth + 1)) ['n', 'u', 'l', 'l'] .null := by
  intro rest _
  rw [tree]
  refine (bind_of_eq_ok (peek_cons rfl _)).trans ?_
  dsimp only
  rw [if_pos rfl]
  rfl

/-- Every form has a character. -/
theorem exists_depth {k : Kind} {x : k.Val} {depth : Nat} (h : (writeValue k x).length ≤ depth) :
    ∃ d, depth = d + 1 := by
  obtain ⟨c, cs, hwrite, -⟩ := opens_writeValue k x
  rw [hwrite, List.length_cons] at h
  exact ⟨depth - 1, by omega⟩

/-- The written form of a value is read as what it stands for, to any depth that its length allows. -/
theorem reads_tree (k : Kind) : ∀ (x : k.Val) (depth : Nat), (writeValue k x).length ≤ depth →
    Reads (tree depth) (writeValue k x) (Tree.ofValue k x) := by
  induction k with
  | byte =>
    intro n depth h
    obtain ⟨depth, rfl⟩ := exists_depth h
    exact reads_tree_decimal (Nat.lt_trans (UInt8.toNat_lt n) (by decide)) depth
  | word32 =>
    intro n depth h
    obtain ⟨depth, rfl⟩ := exists_depth h
    exact reads_tree_decimal (Nat.lt_trans (UInt32.toNat_lt n) (by decide)) depth
  | word64 =>
    intro n depth h
    obtain ⟨depth, rfl⟩ := exists_depth h
    exact reads_tree_decimal (UInt64.toNat_lt n) depth
  | text | time | choice =>
    intro x depth h
    obtain ⟨depth, rfl⟩ := exists_depth h
    exact reads_tree_text _ depth
  | list item ih =>
    intro xs depth h
    obtain ⟨depth, rfl⟩ := exists_depth h
    have hlength : (separated ((xs : List item.Val).map (writeValue item))).length ≤ depth := by
      rw [writeValue, List.length_append, List.length_cons, List.length_singleton] at h
      omega
    have hreads : ∀ x ∈ (xs : List item.Val), Reads (tree depth) (writeValue item x) (Tree.ofValue item x) :=
      fun x hx => ih x depth ((length_le_separated (List.mem_map_of_mem hx)).trans hlength)
    intro rest _
    have hitems := reads_sequence (.inl rfl) hreads (fun x _ => opens_writeValue item x) rest
    rw [writeValue, List.cons_append, List.cons_append, List.append_assoc, tree]
    refine (bind_of_eq_ok (peek_cons rfl _)).trans ?_
    dsimp only
    rw [if_neg (by decide), if_neg (by decide), if_neg (by decide), if_neg (by decide), if_neg (by decide),
      if_pos rfl]
    refine (bind_of_eq_ok (advance_cons _ _)).trans ?_
    exact (bind_of_eq_ok hitems).trans rfl
  | optional item ih =>
    intro x depth h
    rcases x with _ | x
    · obtain ⟨depth, rfl⟩ := exists_depth h
      exact reads_tree_null depth
    · exact ih x depth h

/-! ### Records -/

theorem reads_entry {name : String} {value : Reader Tree} {written : List Char} {t : Tree}
    (h : Reads value written t) : Reads (entry value) (writeText name ++ ':' :: written) (name, t) := by
  intro rest hrest
  rw [List.append_assoc, writeText_append, entry]
  refine (bind_of_eq_ok (peek_cons rfl _)).trans ?_
  refine (bind_of_eq_ok (advance_cons _ _)).trans ?_
  refine (bind_of_eq_ok (text_written name _)).trans ?_
  refine (bind_of_eq_ok (expectColon_cons _)).trans ?_
  exact (bind_of_eq_ok (h rest hrest)).trans rfl

/-- The written forms of the members of a row, and what they stand for. -/
def writtenMembers : (fs : List Field) → Row fs → List (List Char × String × Tree)
  | [], _ => []
  | f :: fs, (x, row) =>
    (writeText f.name ++ ':' :: writeValue f.kind x, f.name, Tree.ofValue f.kind x) :: writtenMembers fs row

theorem writeMembers_eq (fs : List Field) (row : Row fs) :
    writeMembers fs row = (writtenMembers fs row).map Prod.fst := by
  induction fs with
  | nil => rfl
  | cons f fs ih =>
    obtain ⟨x, row⟩ := row
    rw [writeMembers, ih, writtenMembers, List.map_cons]

theorem ofMembers_eq (fs : List Field) (row : Row fs) :
    Tree.ofMembers fs row = (writtenMembers fs row).map Prod.snd := by
  induction fs with
  | nil => rfl
  | cons f fs ih =>
    obtain ⟨x, row⟩ := row
    rw [Tree.ofMembers, ih, writtenMembers, List.map_cons]

theorem reads_member {depth : Nat} {fs : List Field} {row : Row fs} :
    ∀ m ∈ writtenMembers fs row, m.1.length ≤ depth →
      Reads (entry (tree depth)) m.1 m.2 ∧ Opens m.1 := by
  induction fs with
  | nil => nofun
  | cons f fs ih =>
    obtain ⟨x, row⟩ := row
    intro m hm hlength
    rcases List.mem_cons.mp hm with rfl | hm
    · rw [List.length_append, List.length_cons] at hlength
      refine ⟨reads_entry (reads_tree f.kind x depth (by omega)), ?_⟩
      obtain ⟨c, cs, hwrite, hopens⟩ := opens_writeText f.name
      exact ⟨c, _, by rw [hwrite, List.cons_append], hopens⟩
    · exact ih m hm hlength

/-- The object that a row is written as is read as its members. -/
theorem reads_tree_row (fs : List Field) (row : Row fs) {depth : Nat} (h : (writeRow fs row).length ≤ depth) :
    Reads (tree (depth + 1)) (writeRow fs row) (.object (Tree.ofMembers fs row)) := by
  have hmembers : ∀ m ∈ writtenMembers fs row, Reads (entry (tree depth)) m.1 m.2 ∧ Opens m.1 := by
    intro m hm
    have hpart : m.1.length ≤ (separated (writeMembers fs row)).length := by
      rw [writeMembers_eq]
      exact length_le_separated (List.mem_map_of_mem hm)
    rw [writeRow, List.length_append, List.length_cons] at h
    exact reads_member m hm (by omega)
  intro rest _
  have hbody := reads_sequence (.inr rfl) (fun m hm => (hmembers m hm).1) (fun m hm => (hmembers m hm).2) rest
  rw [← writeMembers_eq, ← ofMembers_eq] at hbody
  rw [writeRow, List.cons_append, List.cons_append, List.append_assoc, tree]
  refine (bind_of_eq_ok (peek_cons rfl _)).trans ?_
  dsimp only
  rw [if_neg (by decide), if_neg (by decide), if_neg (by decide), if_neg (by decide), if_neg (by decide),
    if_neg (by decide), if_pos rfl]
  refine (bind_of_eq_ok (advance_cons _ _)).trans ?_
  exact (bind_of_eq_ok hbody).trans rfl

/-- The text of a record says what the record holds, and nothing else. -/
theorem parseTree_render {α : Type} [Record α] (a : α) : parseTree (render a) = .ok (Tree.ofRecord a) := by
  have hread := reads_tree_row (Record.fields α) (Record.toRow a) (Nat.le_refl _) [] nofun
  rw [List.append_nil] at hread
  rw [parseTree, render, String.toList_ofList, document, hread]
  rfl

end Gatehouse.Json
