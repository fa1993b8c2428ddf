import Gatehouse.Proofs.MessagePack.ReadBack
import Gatehouse.Proofs.Store.Ordered
import Mathlib.Data.List.Perm.Basic

/-!
# Records of other versions

`record_survives_storage`: a record is read back from its stored form, and also from a form that has the
entries in another order, lacks some of those that have a default, and has others besides whose names mean
nothing to this version. What is lacking gets its default, and everything else is as it was.

Proof. The fields that are known after some entries depend only on which names have been read, not on the
order (`gathered`). An entry of the record fills its field (`entry_gathered`), and one with a strange name
and a scalar value is passed over (`reads_passItem`). What is left open in the end is what was left out, and
that has a default (`complete?_gathered`).
-/

namespace Gatehouse

/-! ### Defaults -/

/-- The row with the defaults in some fields, as far as these have one. -/
def Row.reset (names : List String) : (fs : List Field) → Row fs → Row fs
  | [], _ => ()
  | f :: fs, (x, row) => (if f.name ∈ names then f.default.getD x else x, reset names fs row)

/-- The record with the defaults in some fields, as far as these have one. -/
def Record.reset {α : Type} [Record α] (names : List String) (a : α) : α :=
  ofRow (Row.reset names (fields α) (toRow a))

/-- The fields that have a default are those that need not be given to make a record, and what they are
then is their default. -/
theorem Record.reset_eq :
    (∀ u : User, reset ["invite_token", "invite_expires_at", "group_ids", "roles", "comment"] u =
      { id := u.id, name := u.name, email := u.email }) ∧
    (∀ k : UserKey, reset ["comment"] k =
      { id := k.id, userId := k.userId, authorizedKey := k.authorizedKey, keyBlob := k.keyBlob,
        createdAt := k.createdAt }) ∧
    (∀ g : Group, reset ["acl_ids", "comment"] g = { id := g.id, name := g.name }) ∧
    (∀ a : Acl, reset ["host_pattern", "inception", "expiration", "comment"] a =
      { id := a.id, action := a.action, weight := a.weight }) ∧
    (∀ h : Host, reset ["password", "ssh_key_id", "hop_id", "logging", "host_key", "group_ids", "comment"] h =
      { id := h.id, name := h.name, addr := h.addr, user := h.user }) ∧
    (∀ k : SshKey, reset ["public_key", "comment"] k =
      { id := k.id, name := k.name, keyType := k.keyType, privateKey := k.privateKey }) ∧
    ∀ s : Session, reset ["error", "stopped_at"] s =
      { id := s.id, userId := s.userId, hostId := s.hostId, status := s.status, createdAt := s.createdAt } := by
  refine ⟨fun _ => rfl, fun _ => rfl, fun _ => rfl, fun _ => rfl, fun _ => rfl, fun _ => rfl, fun s => ?_⟩
  obtain ⟨_, _, _, status⟩ := s
  cases status <;> rfl

namespace MessagePack

open Gatehouse.Bytes

/-! ### Scalars -/

/-- The lead bytes that are followed by a number or a real of so many bytes. -/
def numberForms : List (UInt8 × Nat) :=
  [(0xCA, 4), (0xCB, 8), (0xCC, 1), (0xCD, 2), (0xCE, 4), (0xCF, 8), (0xD0, 1), (0xD1, 2), (0xD2, 4),
    (0xD3, 8)]

/-- The lead bytes that are followed by the length, in so many bytes, of a binary string or a text. -/
def stringForms : List (UInt8 × Nat) :=
  [(0xC4, 1), (0xC5, 2), (0xC6, 4), (0xD9, 1), (0xDA, 2), (0xDB, 4)]

/-- The forms of scalar values: null, flags, numbers, texts and binary strings. -/
inductive Scalar : Bytes → Prop where
  | null : Scalar [0xC0]
  | no : Scalar [0xC2]
  | yes : Scalar [0xC3]
  /-- A number from 0 to 127 or from -32 to -1. -/
  | small (b : UInt8) (h : b.toNat < 0x80 ∨ 0xE0 ≤ b.toNat) : Scalar [b]
  | number (lead : UInt8) (bytes : Bytes) (h : (lead, bytes.length) ∈ numberForms) :
    Scalar (lead :: bytes)
  | shortText (bytes : Bytes) (h : bytes.length < 32) :
    Scalar (UInt8.ofNat (0xA0 + bytes.length) :: bytes)
  | string (lead : UInt8) (width : Nat) (bytes : Bytes) (h : (lead, width) ∈ stringForms)
    (hlength : bytes.length < 256 ^ width) :
    Scalar (lead :: bigEndian width bytes.length ++ bytes)

/-- The length of what follows the head of an item that has no items of its own. -/
def Head.payload? : Head → Option Nat
  | .null | .flag | .number _ | .signed _ => some 0
  | .real width => some width
  | .text length | .binary length => some length
  | .array _ | .map _ | .foreign _ => none

theorem Reads.lead {read : Reader Head} {b : UInt8} {bytes : Bytes} {announced : Head}
    (h : Reads read bytes announced) (hlead : ∀ rest, head (b :: rest) = read rest) :
    Reads head (b :: bytes) announced := by
  intro rest
  rw [List.cons_append, hlead]
  exact h rest

theorem reads_number {f : Nat → Head} {bytes : Bytes} {width : Nat} (h : bytes.length = width) :
    Reads (do return f (← unsigned width)) bytes (f (ofBigEndian bytes)) := by
  subst h
  exact ((reads_take bytes).map ofBigEndian).map f

theorem reads_signed {bytes : Bytes} {width : Nat} (h : bytes.length = width) :
    ∃ n, Reads (do return Head.signed (← twosComplement width)) bytes (Head.signed n) := by
  subst h
  have hread : Reads (unsigned bytes.length) bytes (ofBigEndian bytes) := (reads_take bytes).map ofBigEndian
  exact ⟨_, (hread.map fun n => if n < 1 <<< (8 * bytes.length - 1) then (n : Int)
    else n - (1 <<< (8 * bytes.length) : Nat)).map Head.signed⟩

/-- A scalar is a head and what follows it. -/
theorem Scalar.exists_head {bytes : Bytes} (h : Scalar bytes) :
    ∃ lead payload announced, bytes = lead ++ payload ∧ lead ≠ [] ∧ Reads head lead announced ∧
      announced.payload? = some payload.length := by
  cases h with
  | null => exact ⟨[0xC0], [], .null, rfl, List.cons_ne_nil _ _, fun _ => rfl, rfl⟩
  | no => exact ⟨[0xC2], [], .flag, rfl, List.cons_ne_nil _ _, fun _ => rfl, rfl⟩
  | yes => exact ⟨[0xC3], [], .flag, rfl, List.cons_ne_nil _ _, fun _ => rfl, rfl⟩
  | small b h =>
    rcases h with h | h
    · have hread := reads_short (if_pos h : Head.short? b.toNat = some (.number b.toNat))
      rw [UInt8.ofNat_toNat] at hread
      exact ⟨[b], [], _, rfl, List.cons_ne_nil _ _, hread, rfl⟩
    · refine ⟨[b], [], .signed ((b.toNat : Int) - 0x100), rfl, List.cons_ne_nil _ _, fun rest => ?_, rfl⟩
      change (if b.toNat < 0x80 then _ else if b.toNat < 0x90 then _ else if b.toNat < 0xA0 then _
        else if b.toNat < 0xC0 then _ else if 0xE0 ≤ b.toNat then (pure (.signed _) : Reader Head)
        else _) rest = _
      rw [if_neg (by omega), if_neg (by omega), if_neg (by omega), if_neg (by omega), if_pos h]
      rfl
  | number lead bytes h =>
    simp only [numberForms, List.mem_cons, Prod.mk.injEq, List.not_mem_nil, or_false] at h
    rcases h with ⟨rfl, h⟩ | ⟨rfl, h⟩ | ⟨rfl, h⟩ | ⟨rfl, h⟩ | ⟨rfl, h⟩ | ⟨rfl, h⟩ | ⟨rfl, h⟩ | ⟨rfl, h⟩ |
      ⟨rfl, h⟩ | ⟨rfl, h⟩
    · exact ⟨[0xCA], bytes, .real 4, rfl, List.cons_ne_nil _ _, fun _ => rfl, congrArg some h.symm⟩
    · exact ⟨[0xCB], bytes, .real 8, rfl, List.cons_ne_nil _ _, fun _ => rfl, congrArg some h.symm⟩
    iterate 4
      exact ⟨_, [], _, (List.append_nil _).symm, List.cons_ne_nil _ _, (reads_number h).lead fun _ => rfl, rfl⟩
    iterate 4
      obtain ⟨n, hread⟩ := reads_signed h
      exact ⟨_, [], _, (List.append_nil _).symm, List.cons_ne_nil _ _, hread.lead fun _ => rfl, rfl⟩
  | shortText bytes h =>
    have hread : Reads head [UInt8.ofNat (0xA0 + bytes.length)] (.text bytes.length) := by
      refine reads_short ?_
      rw [Head.short?, if_neg (by omega), if_neg (by omega), if_neg (by omega), if_pos (by omega),
        Nat.add_sub_cancel_left]
    exact ⟨[_], bytes, _, rfl, List.cons_ne_nil _ _, hread, rfl⟩
  | string lead width bytes h hlength =>
    simp only [stringForms, List.mem_cons, Prod.mk.injEq, List.not_mem_nil, or_false] at h
    rcases h with ⟨rfl, rfl⟩ | ⟨rfl, rfl⟩ | ⟨rfl, rfl⟩ | ⟨rfl, rfl⟩ | ⟨rfl, rfl⟩ | ⟨rfl, rfl⟩
    iterate 3
      exact ⟨_, bytes, .binary bytes.length, rfl, List.cons_ne_nil _ _, reads_head hlength fun _ => rfl, rfl⟩
    all_goals
      exact ⟨_, bytes, .text bytes.length, rfl, List.cons_ne_nil _ _, reads_head hlength fun _ => rfl, rfl⟩

/-- A scalar is passed over. -/
theorem reads_passItem {bytes : Bytes} (h : Scalar bytes) : Reads passItem bytes () := by
  obtain ⟨lead, payload, announced, rfl, hne, hhead, hpayload⟩ := h.exists_head
  intro rest
  obtain ⟨fuel, hfuel⟩ : ∃ fuel, 2 * (lead ++ payload ++ rest).length + 2 = fuel + 3 := by
    have := List.length_pos_iff.mpr hne
    exact ⟨2 * (lead ++ payload ++ rest).length - 1, by simp; omega⟩
  have htake := reads_take payload rest
  have hdone : passItems (fuel + 2) [0] rest = some ((), rest) := by
    rw [passItems, passItems]
    rfl
  rw [passItem, hfuel, passItems, List.append_assoc]
  change Option.bind (head (lead ++ (payload ++ rest))) _ = _
  rw [hhead (payload ++ rest)]
  cases announced with
  | null | flag | number | signed =>
    rw [List.eq_nil_of_length_eq_zero (Option.some.inj hpayload).symm]
    exact hdone
  | real | text | binary =>
    cases hpayload
    change Option.bind (take payload.length (payload ++ rest)) _ = _
    rw [htake]
    exact hdone
  | array | map | foreign => cases hpayload

/-! ### Entries in any order -/

/-- What is known of a row when the fields with these names have been read. -/
def gathered (names : List String) : (fs : List Field) → Row fs → Partial fs
  | [], _ => ()
  | f :: fs, (x, row) => (if f.name ∈ names then some x else none, gathered names fs row)

theorem gathered_nil (fs : List Field) (row : Row fs) : gathered [] fs row = Partial.empty fs := by
  induction fs with
  | nil => rfl
  | cons f fs ih => simp [gathered, Partial.empty, ih row.2]

theorem gathered_congr {names names' : List String} {fs : List Field} (row : Row fs)
    (h : ∀ f ∈ fs, f.name ∈ names ↔ f.name ∈ names') : gathered names fs row = gathered names' fs row := by
  induction fs with
  | nil => rfl
  | cons f fs ih =>
    rw [gathered, gathered, ih row.2 fun g hg => h g (List.mem_cons_of_mem _ hg)]
    simp [h f List.mem_cons_self]

/-- A name that no field has is no matter. -/
theorem gathered_cons_of_notMem {name : String} {fs : List Field} (h : name ∉ fs.map Field.name)
    (names : List String) (row : Row fs) : gathered (name :: names) fs row = gathered names fs row := by
  refine gathered_congr row fun f hf => ?_
  have hne : f.name ≠ name := fun heq => h (heq ▸ List.mem_map_of_mem hf)
  simp [hne]

/-- Fields that have not been read get their defaults. -/
theorem complete?_gathered {names omitted : List String} {fs : List Field} (row : Row fs)
    (hnames : ∀ f ∈ fs, f.name ∈ names ↔ f.name ∉ omitted)
    (hdefault : ∀ f ∈ fs, f.name ∈ omitted → f.default.isSome) :
    Partial.complete? fs (gathered names fs row) = some (Row.reset omitted fs row) := by
  induction fs with
  | nil => rfl
  | cons f fs ih =>
    have hrest := ih row.2 (fun g hg => hnames g (List.mem_cons_of_mem _ hg))
      fun g hg => hdefault g (List.mem_cons_of_mem _ hg)
    have hname := hnames f List.mem_cons_self
    by_cases homitted : f.name ∈ omitted
    · obtain ⟨x, hx⟩ := Option.isSome_iff_exists.mp (hdefault f List.mem_cons_self homitted)
      simp [gathered, Partial.complete?, Row.reset, hname, homitted, hx, hrest]
    · simp [gathered, Partial.complete?, Row.reset, hname, homitted, hrest]

theorem isFor_eq_true_iff {name : String} {position : Nat} {field : String} :
    (Key.name (Text.utf8 name)).isFor position field = true ↔ name = field := by
  rw [Key.isFor, beq_iff_eq]
  exact ⟨fun h => Text.utf8_injective h, congrArg Text.utf8⟩

theorem map_fst_written (fs : List Field) (row : Row fs) :
    (written fs row).map Prod.fst = fs.map Field.name := by
  induction fs with
  | nil => rfl
  | cons f fs ih => simp [written, ih row.2]

theorem entry_of_ne {name : String} {f : Field} (h : name ≠ f.name) (fs : List Field) (position : Nat)
    (old : Option f.kind.Val) (rest : Partial fs) :
    entry (.name (Text.utf8 name)) (f :: fs) position (old, rest) =
      (entry (.name (Text.utf8 name)) fs (position + 1) rest).map fun read => do return (old, ← read) :=
  if_neg (mt isFor_eq_true_iff.mp h)

theorem entry_of_notMem {name : String} {fs : List Field} (h : name ∉ fs.map Field.name) (position : Nat)
    (known : Partial fs) : entry (.name (Text.utf8 name)) fs position known = none := by
  induction fs generalizing position with
  | nil => rfl
  | cons f fs ih =>
    rw [List.map_cons, List.mem_cons, not_or] at h
    rw [entry_of_ne h.1, ih h.2]
    rfl

/-- An entry of the row fills its field, if it is not filled yet, and no other one. -/
theorem entry_gathered {names : List String} {fs : List Field} (hfs : Unambiguous fs) {row : Row fs}
    {e : String × Bytes} (he : e ∈ written fs row) (hnew : e.1 ∉ names) (h : e.2.length < 0x1_0000_0000)
    (position : Nat) :
    ∃ read, entry (.name (Text.utf8 e.1)) fs position (gathered names fs row) = some read ∧
      Reads read e.2 (gathered (e.1 :: names) fs row) := by
  induction fs generalizing position with
  | nil => cases he
  | cons f fs ih =>
    obtain ⟨x, row⟩ := row
    have hfirst : f.name ∉ fs.map Field.name := (List.nodup_cons.mp hfs.names).1
    rcases List.mem_cons.mp he with rfl | he
    · refine ⟨_, if_pos (isFor_eq_true_iff.mpr rfl), ?_⟩
      have hread := (reads_value (hfs.kinds f List.mem_cons_self) h).map fun x =>
        (some x, gathered names fs row)
      simpa [gathered, hnew, gathered_cons_of_notMem hfirst] using hread
    · obtain ⟨read, hentry, hread⟩ := ih hfs.tail he (position + 1)
      have hne : e.1 ≠ f.name := fun heq => hfirst (heq ▸ name_mem_of_mem_written he)
      have hsame : gathered (e.1 :: names) (f :: fs) (x, row) =
          (if f.name ∈ names then some x else none, gathered (e.1 :: names) fs row) := by
        simp [gathered, hne.symm]
      rw [hsame]
      refine ⟨_, ?_, hread.map (Prod.mk (if f.name ∈ names then some x else none))⟩
      rw [gathered, entry_of_ne hne, hentry]
      rfl

/-- A name that no field has, with a scalar value. -/
def Strange (fs : List Field) (e : String × Bytes) : Prop :=
  e.1 ∉ fs.map Field.name ∧ Scalar e.2

/-- The entries of a map, one after the other. -/
def entriesForm (es : List (String × Bytes)) : Bytes :=
  es.flatMap fun e => writeText e.1 ++ e.2

/-- Entries of the row and strange ones, in any order, fill the fields that they name. -/
theorem reads_gathered {fs : List Field} (hfs : Unambiguous fs) {row : Row fs}
    {es : List (String × Bytes)} (hlength : (entriesForm es).length < 0x1_0000_0000)
    (hes : ∀ e ∈ es, e ∈ written fs row ∨ Strange fs e)
    (honce : es.Pairwise fun e e' => e.1 = e'.1 → e.1 ∉ fs.map Field.name) :
    ∀ names : List String, (∀ e ∈ es, e.1 ∈ fs.map Field.name → e.1 ∉ names) →
      Reads (entries fs es.length (gathered names fs row)) (entriesForm es)
        (gathered (es.map Prod.fst ++ names) fs row) := by
  induction es with
  | nil => exact fun _ _ => Reads.pure _
  | cons e es ih =>
    intro names hnew
    obtain ⟨hfirst, honce⟩ := List.pairwise_cons.mp honce
    simp only [entriesForm, List.flatMap_cons, List.length_append] at hlength
    have hrest := ih (by rw [entriesForm]; omega) (fun e' he' => hes e' (List.mem_cons_of_mem _ he')) honce
      (e.1 :: names) fun e' he' hknown => by
        have hne : e'.1 ≠ e.1 := fun heq => hfirst e' he' heq.symm (heq ▸ hknown)
        have := hnew e' (List.mem_cons_of_mem _ he') hknown
        simp [hne, this]
    have hperm : gathered (es.map Prod.fst ++ e.1 :: names) fs row =
        gathered ((e :: es).map Prod.fst ++ names) fs row :=
      gathered_congr row fun f _ => by simp; tauto
    rw [hperm] at hrest
    rw [entriesForm, List.flatMap_cons, List.append_assoc]
    refine (reads_key (by omega)).bind ?_
    rcases hes e List.mem_cons_self with hwritten | ⟨hstrange, hscalar⟩
    · obtain ⟨read, hentry, hread⟩ := entry_gathered hfs hwritten
        (hnew e List.mem_cons_self (name_mem_of_mem_written hwritten)) (by omega) 0
      rw [hentry]
      exact hread.bind hrest
    · rw [entry_of_notMem hstrange]
      rw [gathered_cons_of_notMem hstrange] at hrest
      exact (reads_passItem hscalar).bind ((Reads.pure _).bind hrest)

/-! ### Records -/

/-- A map with these entries. -/
def mapForm (es : List (String × Bytes)) : Bytes :=
  mapLead es.length ++ entriesForm es

/-- The entries are those of the record, in any order, without some that have a default and with others
besides that have strange names. -/
structure Evolved {α : Type} [Record α] (a : α) (omitted : List String) (es : List (String × Bytes)) :
    Prop where
  optional : ∀ f ∈ Record.fields α, f.name ∈ omitted → f.default.isSome
  entries : ∃ added, (∀ e ∈ added, Strange (Record.fields α) e) ∧
    es.Perm ((written (Record.fields α) (Record.toRow a)).filter (fun e => e.1 ∉ omitted) ++ added)

section

variable {α : Type} [Record α] {a : α} {omitted : List String} {es : List (String × Bytes)}

theorem Evolved.entry_cases (h : Evolved a omitted es) {e : String × Bytes} (he : e ∈ es) :
    e ∈ written (Record.fields α) (Record.toRow a) ∧ e.1 ∉ omitted ∨ Strange (Record.fields α) e := by
  obtain ⟨added, hadded, hperm⟩ := h.entries
  rcases List.mem_append.mp (hperm.mem_iff.mp he) with hkept | hmem
  · obtain ⟨hmem, hkept⟩ := List.mem_filter.mp hkept
    exact .inl ⟨hmem, of_decide_eq_true hkept⟩
  · exact .inr (hadded e hmem)

/-- What is given is what is not omitted. -/
theorem Evolved.mem_names_iff (h : Evolved a omitted es) {f : Field} (hf : f ∈ Record.fields α) :
    f.name ∈ es.map Prod.fst ↔ f.name ∉ omitted := by
  have hname : f.name ∈ (Record.fields α).map Field.name := List.mem_map_of_mem hf
  constructor
  · intro hmem
    obtain ⟨e, he, hsame⟩ := List.mem_map.mp hmem
    rcases h.entry_cases he with ⟨-, hkept⟩ | ⟨hstrange, -⟩
    · exact hsame ▸ hkept
    · exact absurd (hsame ▸ hname) hstrange
  · intro hkept
    obtain ⟨added, -, hperm⟩ := h.entries
    rw [← map_fst_written (Record.fields α) (Record.toRow a)] at hname
    obtain ⟨e, he, hsame⟩ := List.mem_map.mp hname
    have hmem : e ∈ es := hperm.mem_iff.mpr
      (List.mem_append_left _ (List.mem_filter.mpr ⟨he, by simpa [hsame] using hkept⟩))
    exact List.mem_map.mpr ⟨e, hmem, hsame⟩

/-- No field is given twice. -/
theorem Evolved.once [Storable α] (h : Evolved a omitted es) :
    es.Pairwise fun e e' => e.1 = e'.1 → e.1 ∉ (Record.fields α).map Field.name := by
  obtain ⟨added, hadded, hperm⟩ := h.entries
  refine (hperm.pairwise_iff fun hxy heq => heq ▸ hxy heq.symm).mpr (List.pairwise_append.mpr ⟨?_, ?_, ?_⟩)
  · have hnames : ((written (Record.fields α) (Record.toRow a)).map Prod.fst).Nodup :=
      map_fst_written _ (Record.toRow a) ▸ Storable.unambiguous.names
    exact ((List.pairwise_map.mp hnames).filter _).imp fun hne heq => absurd heq hne
  · exact List.pairwise_of_forall_mem_list fun e he e' _ _ => (hadded e he).1
  · exact fun e _ e' he' heq => heq ▸ (hadded e' he').1

/-- An evolved form is read as the record with defaults for what is omitted. -/
theorem decode?_evolved [Storable α] (h : Evolved a omitted es)
    (hlength : (mapForm es).length < 0x1_0000_0000) :
    decode? (mapForm es) = some (Record.reset omitted a) := by
  rw [mapForm, List.length_append] at hlength
  have hcount : es.length ≤ (entriesForm es).length := by
    refine length_le_flatMap (fun e => ?_) es
    have := writeValue_length_pos .text e.1
    rw [List.length_append]
    exact Nat.add_pos_left this _
  have hread := reads_gathered Storable.unambiguous (by omega)
    (fun e he => (h.entry_cases he).imp_left And.left) h.once [] fun _ _ _ => List.not_mem_nil
  have hcomplete := complete?_gathered (Record.toRow a) (fun f hf => h.mem_names_iff hf) h.optional
  rw [gathered_nil, List.append_nil] at hread
  have hrow : Reads (row (Record.fields α)) (mapForm es)
      (Row.reset omitted (Record.fields α) (Record.toRow a)) := by
    refine (reads_mapLead (by omega)).bind fun rest => ?_
    change ((entries (Record.fields α) es.length (Partial.empty (Record.fields α)) _).bind
      fun (known, rest) => _) = _
    rw [hread, Option.bind_some]
    dsimp only
    rw [hcomplete]
    rfl
  have hwhole := hrow []
  rw [List.append_nil] at hwhole
  rw [decode?, hwhole]
  rfl

end

end MessagePack

namespace Store

open MessagePack

theorem get_of_write {α : Type} [Identified α] {s s' : Store} {t : Table} {id : Id} {bytes : Bytes} {a : α}
    (hwrite : s.write t id bytes = .ok s') (hdecode : decode? bytes = some a) :
    s'.get α t id = .ok (some a) := by
  obtain ⟨-, rfl⟩ := write_eq_ok_iff.mp hwrite
  rw [get_putBytes, if_pos ⟨rfl, rfl⟩, decode, hdecode]
  rfl

/-- A record is read from its stored form, and with defaults for what is omitted from a form of another
version. In either case the form must be shorter than 4 GiB, which is what lengths can say, and a store
takes no longer one. -/
theorem record_survives_storage {α : Type} [Identified α] [Storable α] (a : α) :
    ((encode a).length < 0x1_0000_0000 → decode? (encode a) = some a) ∧
    (∀ omitted es, Evolved a omitted es → (mapForm es).length < 0x1_0000_0000 →
      decode? (mapForm es) = some (Record.reset omitted a)) ∧
    (∀ (s s' : Store) (t : Table) (b : α), s.put t a = .ok (s', b) →
      s'.get α t (Identified.id b) = .ok (some b) ∧ (Identified.id a ≠ 0 → b = a)) ∧
    ∀ (s s' : Store) (t : Table) (id : Id) omitted es, Evolved a omitted es →
      s.write t id (mapForm es) = .ok s' → s'.get α t id = .ok (some (Record.reset omitted a)) := by
  have hshort : ∀ {s s' : Store} {t : Table} {id : Id} {bytes : Bytes}, s.write t id bytes = .ok s' →
      bytes.length < 0x1_0000_0000 := fun hwrite =>
    Nat.lt_of_le_of_lt (write_eq_ok_iff.mp hwrite).1 (by decide)
  refine ⟨decode?_encode a, fun omitted es h => decode?_evolved h, fun s s' t b hput => ?_,
    fun s s' t id omitted es h hwrite => get_of_write hwrite (decode?_evolved h (hshort hwrite))⟩
  obtain ⟨s'', hwrite, heq⟩ := exists_of_bind_eq_ok hput
  cases heq
  exact ⟨get_of_write hwrite (decode?_encode _ (hshort hwrite)), fun hid => if_neg hid⟩

/-- A host behind another one. -/
def innerHost : Host where
  id := 7
  name := "web"
  addr := "10.0.0.1:22"
  user := "root"
  password := "pw"
  hopId := some 300
  logging := .input
  hostKey := [0x4B, 0xC1]
  comment := "rack 4"

/-- The entries of the host from the last to the first without two that have defaults, with a text in front
and a number, a real and null between them. -/
def innerHostEntries : List (String × Bytes) :=
  let kept := (written (Record.fields Host) (Record.toRow innerHost)).filter fun e =>
    e.1 ∉ ["logging", "comment"]
  ("colour", [0xA3, 0x72, 0x65, 0x64]) :: kept.reverse.take 4 ++ ("rank", [0xD0, 0x80]) ::
    ("load", [0xCA, 0x3F, 0x80, 0, 0]) :: ("retired", [0xC0]) :: kept.reverse.drop 4

theorem record_survives_storage_innerHost :
    decode? (encode innerHost) = some innerHost ∧
    Evolved innerHost ["logging", "comment"] innerHostEntries ∧
    decode? (mapForm innerHostEntries) = some { innerHost with logging := .everything, comment := "" } ∧
    (empty.putBytes .hosts 7 (encode innerHost)).host 7 = .ok (some innerHost) ∧
    (empty.putBytes .hosts 7 (mapForm innerHostEntries)).host 7 =
      .ok (some { innerHost with logging := .everything, comment := "" }) := by
  have hevolved : Evolved innerHost ["logging", "comment"] innerHostEntries := by
    refine ⟨by decide +kernel, [("colour", [0xA3, 0x72, 0x65, 0x64]), ("rank", [0xD0, 0x80]),
      ("load", [0xCA, 0x3F, 0x80, 0, 0]), ("retired", [0xC0])], fun e he => ?_, by decide +kernel⟩
    simp only [List.mem_cons, List.not_mem_nil, or_false] at he
    rcases he with rfl | rfl | rfl | rfl
    · exact ⟨by decide, .shortText [0x72, 0x65, 0x64] (by decide)⟩
    · exact ⟨by decide, .number 0xD0 [0x80] (by decide)⟩
    · exact ⟨by decide, .number 0xCA [0x3F, 0x80, 0, 0] (by decide)⟩
    · exact ⟨by decide, .null⟩
  obtain ⟨hsame, hother, hput, hwrite⟩ := record_survives_storage innerHost
  refine ⟨hsame (by decide +kernel), hevolved, ?_, ?_, ?_⟩
  · exact hother _ _ hevolved (by decide +kernel)
  · exact (hput empty _ .hosts innerHost (put_eq_ok (by decide) (by decide +kernel))).1
  · exact hwrite empty _ .hosts 7 _ _ hevolved (write_eq_ok_iff.mpr ⟨by decide +kernel, rfl⟩)

end Store

end Gatehouse
