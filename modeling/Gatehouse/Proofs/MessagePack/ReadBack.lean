import Gatehouse.MessagePack.Read
import Gatehouse.MessagePack.Write
import Gatehouse.Proofs.Time.ReadBack
import Gatehouse.Records
import Mathlib.Data.List.Nodup

/-!
# Records are read back as they were written

`decode?_encode`: the stored form of a record stands for that record, whichever its schema is, as long
as the form is not longer than lengths can say.

Proof. A reader that takes exactly the written form of a value off the front of any byte string,
whatever comes after it (`Reads`), can be put together from readers of its parts. Every form but that
of an empty optional value begins with a head that is not null, which tells the two apart. The fields
of a record come in the order of its schema, and each key is that of one field alone, so after `n`
entries just the first `n` fields are known (`Partial.filled`).
-/

namespace Gatehouse

/-! ### Schemas whose values have only one reading -/

def Kind.isOptional : Kind → Bool
  | .optional _ => true
  | _ => false

/-- No two values of the kind are written alike. -/
def Kind.Unambiguous : Kind → Prop
  | .byte | .word32 | .word64 | .text | .time => True
  | .list item => item.Unambiguous
  | .optional item => item.isOptional = false ∧ item.Unambiguous
  | .choice names => names.Nodup

instance Kind.decidableUnambiguous : (k : Kind) → Decidable k.Unambiguous
  | .byte | .word32 | .word64 | .text | .time => isTrue trivial
  | .list item => item.decidableUnambiguous
  | .optional item =>
    have := item.decidableUnambiguous
    inferInstanceAs (Decidable (item.isOptional = false ∧ item.Unambiguous))
  | .choice names => inferInstanceAs (Decidable names.Nodup)

/-- No two rows of the schema are written alike. -/
structure Unambiguous (fs : List Field) : Prop where
  kinds : ∀ f ∈ fs, f.kind.Unambiguous
  names : (fs.map Field.name).Nodup

theorem Unambiguous.tail {f : Field} {fs : List Field} (h : Unambiguous (f :: fs)) :
    Unambiguous fs :=
  ⟨fun g hg => h.kinds g (List.mem_cons_of_mem _ hg), (List.nodup_cons.mp h.names).2⟩

/-- A record type whose schema is unambiguous. -/
class Storable (α : Type) [Record α] : Prop where
  unambiguous : Unambiguous (Record.fields α)

instance : Storable User := ⟨by decide, by decide⟩

instance : Storable UserKey := ⟨by decide, by decide⟩

instance : Storable Group := ⟨by decide, by decide⟩

instance : Storable Acl := ⟨by decide, by decide⟩

instance : Storable Host := ⟨by decide, by decide⟩

instance : Storable SshKey := ⟨by decide, by decide⟩

instance : Storable Session := ⟨by decide, by decide⟩

namespace MessagePack

open Gatehouse.Bytes

/-- The reader takes just these bytes off the front of any byte string, and gives this. -/
def Reads {α : Type} (read : Reader α) (bytes : Bytes) (a : α) : Prop :=
  ∀ rest, read (bytes ++ rest) = some (a, rest)

section

variable {α β : Type} {read : Reader α} {bytes bytes' : Bytes} {a : α} {b : β}

theorem Reads.pure (a : α) : Reads (Pure.pure a) [] a :=
  fun _ => rfl

theorem Reads.bind {next : α → Reader β} (h : Reads read bytes a) (h' : Reads (next a) bytes' b) :
    Reads (read >>= next) (bytes ++ bytes') b := by
  intro rest
  change (read (bytes ++ bytes' ++ rest)).bind (fun p => next p.1 p.2) = _
  rw [List.append_assoc, h]
  exact h' rest

theorem Reads.map (f : α → β) (h : Reads read bytes a) :
    Reads (do return f (← read)) bytes (f a) := by
  have hbind : Reads (read >>= fun a => Pure.pure (f a)) (bytes ++ []) (f a) :=
    h.bind (Reads.pure (f a))
  rw [List.append_nil] at hbind
  exact hbind

end

/-! ### Heads -/

theorem reads_take (bytes : Bytes) : Reads (take bytes.length) bytes bytes := by
  intro rest
  rw [take, if_pos (by rw [List.length_append]; omega), List.take_left, List.drop_left]

theorem reads_unsigned {width n : Nat} (h : n < 256 ^ width) :
    Reads (unsigned width) (bigEndian width n) n := by
  have h : n < Nat.pow 256 width := h
  have htake := (reads_take (bigEndian width n)).map ofBigEndian
  rw [length_bigEndian, ofBigEndian_bigEndian, Nat.mod_eq_of_lt h] at htake
  exact htake

/-- A head is its lead byte with the number that the lead byte asks for. -/
theorem reads_head {b : UInt8} {f : Nat → Head} {n width : Nat} (h : n < 256 ^ width)
    (hlead : ∀ rest, head (b :: rest) = (do return f (← unsigned width)) rest) :
    Reads head (b :: bigEndian width n) (f n) := by
  intro rest
  rw [List.cons_append, hlead]
  exact (reads_unsigned h).map f rest

/-- The heads that are a lead byte alone. -/
def Head.short? (b : Nat) : Option Head :=
  if b < 0x80 then some (.number b)
  else if b < 0x90 then some (.map (b - 0x80))
  else if b < 0xA0 then some (.array (b - 0x90))
  else if b < 0xC0 then some (.text (b - 0xA0))
  else none

theorem reads_short {b : Nat} {announced : Head} (h : Head.short? b = some announced) :
    Reads head [UInt8.ofNat b] announced := by
  intro rest
  have hb : b < 256 := by
    unfold Head.short? at h
    split_ifs at h <;> omega
  have hbyte : (UInt8.ofNat b).toNat = b := UInt8.toNat_ofNat_of_lt' hb
  change (if (UInt8.ofNat b).toNat < 0x80 then (pure (.number (UInt8.ofNat b).toNat) : Reader Head)
    else if (UInt8.ofNat b).toNat < 0x90 then pure (.map ((UInt8.ofNat b).toNat - 0x80))
    else if (UInt8.ofNat b).toNat < 0xA0 then pure (.array ((UInt8.ofNat b).toNat - 0x90))
    else if (UInt8.ofNat b).toNat < 0xC0 then pure (.text ((UInt8.ofNat b).toNat - 0xA0))
    else _) rest = _
  rw [hbyte]
  unfold Head.short? at h
  split_ifs at h ⊢ with hnumber hmap harray htext
  all_goals
    cases h
    rfl

theorem reads_writeWord {n : Nat} (h : n < 0x1_0000_0000_0000_0000) :
    Reads head (writeWord n) (.number n) := by
  unfold writeWord
  by_cases h7 : n < 128
  · rw [if_pos h7]
    exact reads_short (if_pos h7)
  rw [if_neg h7]
  by_cases h8 : n < 0x100
  · rw [if_pos h8]
    exact reads_head h8 fun _ => rfl
  rw [if_neg h8]
  by_cases h16 : n < 0x1_0000
  · rw [if_pos h16]
    exact reads_head h16 fun _ => rfl
  rw [if_neg h16]
  by_cases h32 : n < 0x1_0000_0000
  · rw [if_pos h32]
    exact reads_head h32 fun _ => rfl
  · rw [if_neg h32]
    exact reads_head h fun _ => rfl

theorem reads_arrayLead {n : Nat} (h : n < 0x1_0000_0000) :
    Reads head (arrayLead n) (.array n) := by
  unfold arrayLead
  by_cases h4 : n < 16
  · rw [if_pos h4]
    refine reads_short ?_
    rw [Head.short?, if_neg (by omega), if_neg (by omega), if_pos (by omega), Nat.add_sub_cancel_left]
  rw [if_neg h4]
  by_cases h16 : n < 0x1_0000
  · rw [if_pos h16]
    exact reads_head h16 fun _ => rfl
  · rw [if_neg h16]
    exact reads_head h fun _ => rfl

theorem reads_mapLead {n : Nat} (h : n < 0x1_0000_0000) : Reads head (mapLead n) (.map n) := by
  unfold mapLead
  by_cases h4 : n < 16
  · rw [if_pos h4]
    refine reads_short ?_
    rw [Head.short?, if_neg (by omega), if_pos (by omega), Nat.add_sub_cancel_left]
  rw [if_neg h4]
  by_cases h16 : n < 0x1_0000
  · rw [if_pos h16]
    exact reads_head h16 fun _ => rfl
  · rw [if_neg h16]
    exact reads_head h fun _ => rfl

/-- A text is a head with its length and then its bytes. -/
theorem writeText_eq (s : String) (h : (Text.utf8 s).length < 0x1_0000_0000) :
    ∃ lead, writeText s = lead ++ Text.utf8 s ∧
      Reads head lead (.text (Text.utf8 s).length) := by
  refine ⟨_, rfl, ?_⟩
  generalize (Text.utf8 s).length = n at h
  by_cases h5 : n < 32
  · rw [if_pos h5]
    refine reads_short ?_
    rw [Head.short?, if_neg (by omega), if_neg (by omega), if_neg (by omega), if_pos (by omega),
      Nat.add_sub_cancel_left]
  rw [if_neg h5]
  by_cases h8 : n < 0x100
  · rw [if_pos h8]
    exact reads_head h8 fun _ => rfl
  rw [if_neg h8]
  by_cases h16 : n < 0x1_0000
  · rw [if_pos h16]
    exact reads_head h16 fun _ => rfl
  · rw [if_neg h16]
    exact reads_head h fun _ => rfl

/-! ### Values -/

theorem length_writeWord_le (n : Nat) : (writeWord n).length ≤ 9 := by
  unfold writeWord
  split_ifs <;> simp

theorem length_writeText_le (s : String) : (writeText s).length ≤ 5 + (Text.utf8 s).length := by
  unfold writeText
  dsimp only
  rw [List.length_append]
  split_ifs <;> simp

theorem length_utf8_le (s : String) : (Text.utf8 s).length ≤ (writeText s).length := by
  unfold writeText
  rw [List.length_append]
  omega

theorem reads_word {n limit : Nat} (hlimit : n < limit) (h : n < 0x1_0000_0000_0000_0000) :
    Reads (word limit) (writeWord n) n := by
  intro rest
  change ((head (writeWord n ++ rest)).bind fun (announced, rest) => _) = _
  rw [reads_writeWord h]
  dsimp only [Option.bind_some]
  rw [if_pos hlimit]
  rfl

/-- What reads the length of a text and then its bytes takes the written text. -/
theorem reads_writeText {α : Type} {next : Head → Reader α} {s : String} {a : α}
    (h : (writeText s).length < 0x1_0000_0000)
    (hnext : Reads (next (.text (Text.utf8 s).length)) (Text.utf8 s) a) :
    Reads (head >>= next) (writeText s) a := by
  obtain ⟨lead, hwrite, hlead⟩ := writeText_eq s (Nat.lt_of_le_of_lt (length_utf8_le s) h)
  rw [hwrite]
  exact hlead.bind hnext

theorem reads_text {s : String} (h : (writeText s).length < 0x1_0000_0000) :
    Reads text (writeText s) s := by
  have hbytes : Reads textBytes (writeText s) (Text.utf8 s) := reads_writeText h (reads_take _)
  intro rest
  change ((textBytes (writeText s ++ rest)).bind fun (bytes, rest) => _) = _
  rw [hbytes]
  dsimp only [Option.bind_some]
  rw [Text.ofUtf8?_utf8]
  rfl

theorem reads_time {t : Time.Instant}
    (h : (writeText (Time.Rfc3339.write t)).length < 0x1_0000_0000) :
    Reads time (writeText (Time.Rfc3339.write t)) t := by
  have hread : Time.Rfc3339.read? (Time.Rfc3339.write t) = some t := Time.Rfc3339.read?_write t
  generalize Time.Rfc3339.write t = s at h hread ⊢
  refine reads_writeText h fun rest => ?_
  change ((take _ (Text.utf8 s ++ rest)).bind fun (bytes, rest) => _) = _
  rw [reads_take]
  dsimp only [Option.bind_some]
  rw [Text.ofUtf8?_utf8, Option.bind_some, hread]
  rfl

theorem finIdxOf?_get {names : List String} (h : names.Nodup) (i : Fin names.length) :
    names.finIdxOf? (names.get i) = some i := by
  rw [List.finIdxOf?_eq_some_iff]
  refine ⟨rfl, fun j hj heq => ?_⟩
  have hsame : j.val = i.val := (List.Nodup.getElem_inj_iff h).mp heq
  omega

theorem reads_choice {names : List String} (hnames : names.Nodup) {i : Fin names.length}
    (h : (writeText (names.get i)).length < 0x1_0000_0000) :
    Reads (choice names) (writeText (names.get i)) i := by
  have halternative : Reads (alternative names) (writeText (names.get i)) i := by
    refine reads_writeText h fun rest => ?_
    change ((take _ (Text.utf8 (names.get i) ++ rest)).bind fun (bytes, rest) => _) = _
    rw [reads_take]
    dsimp only [Option.bind_some]
    rw [Text.ofUtf8?_utf8, Option.bind_some, finIdxOf?_get hnames]
    rfl
  intro rest
  obtain ⟨lead, hwrite, hlead⟩ :=
    writeText_eq (names.get i) (Nat.lt_of_le_of_lt (length_utf8_le _) h)
  have hhead : head (writeText (names.get i) ++ rest) =
      some (.text (Text.utf8 (names.get i)).length, Text.utf8 (names.get i) ++ rest) := by
    rw [hwrite, List.append_assoc, hlead]
  rw [choice, hhead]
  exact halternative rest

theorem reads_items {α : Type} {item : Reader α} {write : α → Bytes} {xs : List α}
    (h : ∀ x ∈ xs, Reads item (write x) x) :
    Reads (items item xs.length) (xs.flatMap write) xs := by
  induction xs with
  | nil => exact Reads.pure []
  | cons x xs ih =>
    have hrest := ih fun y hy => h y (List.mem_cons_of_mem _ hy)
    rw [List.flatMap_cons]
    exact (h x List.mem_cons_self).bind (hrest.map (x :: ·))

/-- What begins with a head other than null does not begin with the byte of null. -/
theorem ne_null_of_head {bytes rest : Bytes} {announced : Head}
    (h : head bytes = some (announced, rest)) (hne : announced ≠ .null) :
    ∃ b more, bytes = b :: more ∧ b ≠ 0xC0 := by
  rcases bytes with _ | ⟨b, more⟩
  · cases h
  · refine ⟨b, more, rfl, ?_⟩
    rintro rfl
    have hnull : head (0xC0 :: more) = some (.null, more) := rfl
    rw [hnull] at h
    cases h
    exact hne rfl

theorem writeValue_length_pos (k : Kind) (x : k.Val) : 0 < (writeValue k x).length := by
  have hword : ∀ n, 0 < (writeWord n).length := by
    intro n
    unfold writeWord
    split_ifs <;> exact Nat.succ_pos _
  have htext : ∀ s, 0 < (writeText s).length := by
    intro s
    unfold writeText
    dsimp only
    rw [List.length_append]
    refine Nat.add_pos_left ?_ _
    split_ifs <;> exact Nat.succ_pos _
  induction k with
  | byte | word32 | word64 => exact hword _
  | text | time | choice => exact htext _
  | list item ih =>
    rw [writeValue, List.length_append]
    have : ∀ n, 0 < (arrayLead n).length := by
      intro n
      unfold arrayLead
      split_ifs <;> exact Nat.succ_pos _
    exact Nat.add_pos_left (this _) _
  | optional item ih =>
    cases x with
    | none => exact Nat.one_pos
    | some x => exact ih x

theorem length_le_flatMap {α : Type} {write : α → Bytes} (h : ∀ x, 0 < (write x).length)
    (xs : List α) : xs.length ≤ (xs.flatMap write).length := by
  induction xs with
  | nil => exact Nat.le_refl 0
  | cons x xs ih =>
    have := h x
    rw [List.flatMap_cons, List.length_append, List.length_cons]
    omega

theorem length_le_flatMap_of_mem {α : Type} (write : α → Bytes) {x : α} {xs : List α}
    (h : x ∈ xs) : (write x).length ≤ (xs.flatMap write).length := by
  obtain ⟨before, after, rfl⟩ := List.append_of_mem h
  rw [List.flatMap_append, List.flatMap_cons, List.length_append, List.length_append]
  omega

/-- The head of the written form of a value that is not optional. -/
theorem head_writeValue {k : Kind} (hk : k.isOptional = false) {x : k.Val}
    (h : (writeValue k x).length < 0x1_0000_0000) :
    ∃ announced rest, head (writeValue k x) = some (announced, rest) ∧ announced ≠ .null := by
  have hword : ∀ n : Nat, n < 0x1_0000_0000_0000_0000 →
      ∃ announced rest, head (writeWord n) = some (announced, rest) ∧ announced ≠ .null := by
    intro n hn
    have hread := reads_writeWord hn []
    rw [List.append_nil] at hread
    exact ⟨_, _, hread, fun h => by cases h⟩
  have htext : ∀ s, (writeText s).length < 0x1_0000_0000 →
      ∃ announced rest, head (writeText s) = some (announced, rest) ∧ announced ≠ .null := by
    intro s hs
    obtain ⟨lead, hwrite, hlead⟩ := writeText_eq s (Nat.lt_of_le_of_lt (length_utf8_le s) hs)
    rw [hwrite]
    exact ⟨_, _, hlead _, fun h => by cases h⟩
  cases k with
  | byte => exact hword _ (Nat.lt_trans (UInt8.toNat_lt x) (by decide))
  | word32 => exact hword _ (Nat.lt_trans (UInt32.toNat_lt x) (by decide))
  | word64 => exact hword _ (UInt64.toNat_lt x)
  | text => exact htext _ h
  | time => exact htext _ h
  | list item =>
    rw [writeValue, List.length_append] at h
    have hlength := length_le_flatMap (writeValue_length_pos item) x
    rw [writeValue]
    exact ⟨_, _, reads_arrayLead (by omega) _, fun h => by cases h⟩
  | optional item => cases hk
  | choice names => exact htext _ h

/-- Every value is read back from its written form. -/
theorem reads_value {k : Kind} (hk : k.Unambiguous) {x : k.Val}
    (h : (writeValue k x).length < 0x1_0000_0000) : Reads (value k) (writeValue k x) x := by
  induction k with
  | byte =>
    have hread := (reads_word (UInt8.toNat_lt x) (Nat.lt_trans (UInt8.toNat_lt x) (by decide))).map
      UInt8.ofNat
    rw [UInt8.ofNat_toNat] at hread
    exact hread
  | word32 =>
    have hread := (reads_word (UInt32.toNat_lt x)
      (Nat.lt_trans (UInt32.toNat_lt x) (by decide))).map UInt32.ofNat
    rw [UInt32.ofNat_toNat] at hread
    exact hread
  | word64 =>
    have hread := (reads_word (UInt64.toNat_lt x) (UInt64.toNat_lt x)).map UInt64.ofNat
    rw [UInt64.ofNat_toNat] at hread
    exact hread
  | text => exact reads_text h
  | time => exact reads_time h
  | list item ih =>
    rw [writeValue, List.length_append] at h
    have hlength := length_le_flatMap (writeValue_length_pos item) x
    rw [writeValue]
    refine (reads_arrayLead (by omega)).bind ?_
    refine reads_items fun y hy => ih hk ?_
    have := length_le_flatMap_of_mem (writeValue item) hy
    omega
  | optional item ih =>
    cases x with
    | none =>
      intro rest
      rfl
    | some x =>
      have hitem := ih hk.2 h
      intro rest
      obtain ⟨announced, _, hhead, hne⟩ := head_writeValue hk.1 h
      obtain ⟨b, more, hbytes, hb⟩ := ne_null_of_head hhead hne
      have hread := hitem rest
      change value (.optional item) (writeValue item x ++ rest) = _
      rw [hbytes, List.cons_append] at hread ⊢
      unfold value
      split
      · next heq =>
        cases heq
        exact absurd rfl hb
      · change (value item _).bind (fun p => some (some p.1, p.2)) = _
        rw [hread]
        rfl
  | choice names => exact reads_choice hk h

/-! ### Records -/

/-- The entries of a row, each a field's name and the form of its value. -/
def written : (fs : List Field) → Row fs → List (String × Bytes)
  | [], _ => []
  | f :: fs, (x, row) => (f.name, writeValue f.kind x) :: written fs row

/-- What is known when the first `n` fields of a row have been read. -/
def filled : (fs : List Field) → (n : Nat) → Row fs → Partial fs
  | [], _, _ => ()
  | _ :: fs, 0, _ => (none, Partial.empty fs)
  | _ :: fs, n + 1, (x, row) => (some x, filled fs n row)

theorem filled_zero (fs : List Field) (row : Row fs) : filled fs 0 row = Partial.empty fs := by
  cases fs with
  | nil => rfl
  | cons f fs => rfl

theorem filled_all (fs : List Field) (row : Row fs) :
    filled fs (written fs row).length row = Partial.ofRow fs row := by
  induction fs with
  | nil => rfl
  | cons f fs ih => exact congrArg (Prod.mk (some row.1)) (ih row.2)

theorem length_written (fs : List Field) (row : Row fs) :
    (written fs row).length = fs.length := by
  induction fs with
  | nil => rfl
  | cons f fs ih => exact congrArg Nat.succ (ih row.2)

theorem name_mem_of_mem_written {fs : List Field} {row : Row fs} {e : String × Bytes}
    (h : e ∈ written fs row) : e.1 ∈ fs.map Field.name := by
  induction fs with
  | nil => cases h
  | cons f fs ih =>
    rcases List.mem_cons.mp h with rfl | hmem
    · exact List.mem_cons_self
    · exact List.mem_cons_of_mem _ (ih hmem)

theorem writeEntries_eq (fs : List Field) (row : Row fs) :
    writeEntries fs row = (written fs row).flatMap fun e => writeText e.1 ++ e.2 := by
  induction fs with
  | nil => rfl
  | cons f fs ih =>
    rw [writeEntries, ih row.2]
    rfl

/-- The next entry of a row fills the next field, and only that one. -/
theorem entry_filled {fs : List Field} (hfs : Unambiguous fs) {row : Row fs} {n : Nat}
    {e : String × Bytes} (he : (written fs row)[n]? = some e) (h : e.2.length < 0x1_0000_0000)
    (position : Nat) :
    ∃ read, entry (.name (Text.utf8 e.1)) fs position (filled fs n row) = some read ∧
      Reads read e.2 (filled fs (n + 1) row) := by
  induction fs generalizing n position with
  | nil => cases he
  | cons f fs ih =>
    obtain ⟨x, row⟩ := row
    cases n with
    | zero =>
      cases he
      have hfor : (Key.name (Text.utf8 f.name)).isFor position f.name = true := beq_self_eq_true _
      refine ⟨_, if_pos hfor, ?_⟩
      rw [filled, filled_zero]
      exact (reads_value (hfs.kinds f List.mem_cons_self) h).map fun x => (some x, Partial.empty fs)
    | succ n =>
      rw [written, List.getElem?_cons_succ] at he
      obtain ⟨read, hentry, hread⟩ := ih hfs.tail he (position + 1)
      have hfor : (Key.name (Text.utf8 e.1)).isFor position f.name = false := by
        refine beq_eq_false_iff_ne.mpr fun heq => ?_
        have hmem := name_mem_of_mem_written (List.mem_of_getElem? he)
        rw [Text.utf8_injective heq] at hmem
        exact (List.nodup_cons.mp hfs.names).1 hmem
      refine ⟨(do return (some x, ← read)), ?_, hread.map (Prod.mk (some x))⟩
      rw [filled, entry, if_neg (Bool.eq_false_iff.mp hfor), hentry]
      rfl

theorem reads_key {name : String} (h : (writeText name).length < 0x1_0000_0000) :
    Reads key (writeText name) (.name (Text.utf8 name)) :=
  reads_writeText h ((reads_take _).map Key.name)

/-- The entries that are left fill the fields that are left. -/
theorem reads_entries {fs : List Field} (hfs : Unambiguous fs) {row : Row fs}
    (h : (writeEntries fs row).length < 0x1_0000_0000) :
    ∀ {left : List (String × Bytes)} {n : Nat}, (written fs row).drop n = left →
      Reads (entries fs left.length (filled fs n row))
        (left.flatMap fun e => writeText e.1 ++ e.2) (filled fs (n + left.length) row) := by
  intro left
  induction left with
  | nil =>
    intro n _
    exact Reads.pure _
  | cons e left ih =>
    intro n hleft
    have he : (written fs row)[n]? = some e := by
      rw [← List.head?_drop, hleft]
      rfl
    have hlength := length_le_flatMap_of_mem (fun e => writeText e.1 ++ e.2)
      (List.mem_of_getElem? he)
    rw [← writeEntries_eq, List.length_append] at hlength
    obtain ⟨read, hentry, hread⟩ := entry_filled hfs he (by omega) 0
    have hrest := ih (n := n + 1) (by rw [← List.drop_drop, hleft]; rfl)
    rw [List.flatMap_cons, List.append_assoc]
    refine (reads_key (by omega)).bind ?_
    rw [hentry]
    refine hread.bind ?_
    rw [List.length_cons, ← Nat.add_assoc, Nat.add_right_comm]
    exact hrest

theorem reads_row {fs : List Field} (hfs : Unambiguous fs) {r : Row fs}
    (h : (mapLead fs.length ++ writeEntries fs r).length < 0x1_0000_0000) :
    Reads (row fs) (mapLead fs.length ++ writeEntries fs r) r := by
  rw [List.length_append] at h
  have hpos : ∀ e : String × Bytes, 0 < (writeText e.1 ++ e.2).length := by
    intro e
    have := writeValue_length_pos .text e.1
    rw [List.length_append]
    exact Nat.add_pos_left this _
  have hlength := length_le_flatMap hpos (written fs r)
  rw [← writeEntries_eq, length_written] at hlength
  have hentries := reads_entries hfs (by omega) (List.drop_zero : (written fs r).drop 0 = _)
  rw [← writeEntries_eq, Nat.zero_add, filled_zero, filled_all, length_written] at hentries
  intro rest
  rw [List.append_assoc]
  change ((head (mapLead fs.length ++ _)).bind fun (announced, rest) => _) = _
  rw [reads_mapLead (by omega)]
  change ((entries fs fs.length (Partial.empty fs) _).bind fun (known, rest) => _) = _
  rw [hentries]
  dsimp only [Option.bind_some]
  rw [Partial.complete?_ofRow]
  rfl

/-- A record is read back from its stored form. -/
theorem decode?_encode {α : Type} [Record α] [Storable α] (a : α)
    (h : (encode a).length < 0x1_0000_0000) : decode? (encode a) = some a := by
  have hread := reads_row Storable.unambiguous h []
  rw [List.append_nil] at hread
  rw [decode?, encode, hread, Option.map_some]
  exact congrArg some (Record.ofRow_toRow a)

end MessagePack

end Gatehouse
