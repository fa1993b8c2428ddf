import Gatehouse.Schema
import Gatehouse.Text.Utf8
import Gatehouse.Time.Rfc3339

/-!
# Reading MessagePack by a schema

A record is read from a map, whose keys are field names or field numbers and whose unknown keys are
passed over, or from an array that lists the fields in order. Values that are numbers are accepted
in every integer form that holds them, texts also as binary strings, and lists of numbers also as
binary strings. What follows the record is not looked at.
-/

namespace Gatehouse.MessagePack

open Gatehouse.Bytes

/-- A reader consumes the front of a byte string, or refuses it. -/
abbrev Reader (α : Type) := StateT Bytes Option α

/-! ## Items -/

/-- What the lead byte of an item, and the lengths that belong to it, announce. -/
inductive Head where
  | null
  | flag
  /-- A number in one of the unsigned forms. -/
  | number (n : Nat)
  /-- A number in one of the signed forms, which need not be negative. -/
  | signed (n : Int)
  | real (width : Nat)
  | text (length : Nat)
  | binary (length : Nat)
  | array (length : Nat)
  | map (length : Nat)
  /-- An application type with its payload, whose type byte is not part of the length. -/
  | foreign (length : Nat)

/-- Takes the next `n` bytes. -/
def take (n : Nat) : Reader Bytes := fun bytes =>
  if n ≤ bytes.length then some (bytes.take n, bytes.drop n) else none

/-- Takes an unsigned big-endian number of `width` bytes. -/
def unsigned (width : Nat) : Reader Nat := do
  return ofBigEndian (← take width)

/-- Takes a signed big-endian number of `width` bytes. -/
def twosComplement (width : Nat) : Reader Int := do
  let n ← unsigned width
  return if n < 1 <<< (8 * width - 1) then (n : Int) else n - (1 <<< (8 * width) : Nat)

/-- Reads the head of the next item. -/
def head : Reader Head := do
  let b ← unsigned 1
  if b < 0x80 then return .number b
  else if b < 0x90 then return .map (b - 0x80)
  else if b < 0xA0 then return .array (b - 0x90)
  else if b < 0xC0 then return .text (b - 0xA0)
  else if 0xE0 ≤ b then return .signed ((b : Int) - 0x100)
  else match b with
    | 0xC0 => return .null
    | 0xC2 => return .flag
    | 0xC3 => return .flag
    | 0xC4 => return .binary (← unsigned 1)
    | 0xC5 => return .binary (← unsigned 2)
    | 0xC6 => return .binary (← unsigned 4)
    | 0xC7 => return .foreign (← unsigned 1)
    | 0xC8 => return .foreign (← unsigned 2)
    | 0xC9 => return .foreign (← unsigned 4)
    | 0xCA => return .real 4
    | 0xCB => return .real 8
    | 0xCC => return .number (← unsigned 1)
    | 0xCD => return .number (← unsigned 2)
    | 0xCE => return .number (← unsigned 4)
    | 0xCF => return .number (← unsigned 8)
    | 0xD0 => return .signed (← twosComplement 1)
    | 0xD1 => return .signed (← twosComplement 2)
    | 0xD2 => return .signed (← twosComplement 4)
    | 0xD3 => return .signed (← twosComplement 8)
    | 0xD4 => return .foreign 1
    | 0xD5 => return .foreign 2
    | 0xD6 => return .foreign 4
    | 0xD7 => return .foreign 8
    | 0xD8 => return .foreign 16
    | 0xD9 => return .text (← unsigned 1)
    | 0xDA => return .text (← unsigned 2)
    | 0xDB => return .text (← unsigned 4)
    | 0xDC => return .array (← unsigned 2)
    | 0xDD => return .array (← unsigned 4)
    | 0xDE => return .map (← unsigned 2)
    | 0xDF => return .map (← unsigned 4)
    | _ => failure

/-- How deep arrays and maps may nest, the record itself included. An application type counts as a
level of its own. -/
def depthLimit : Nat := 1023

/-- Passes over items. `counts` says how many items each enclosing array or map still has, innermost
first. Every step consumes a byte or closes an array or map. -/
def passItems : (fuel : Nat) → (counts : List Nat) → Reader Unit
  | 0, _ => failure
  | _ + 1, [] => pure ()
  | fuel + 1, 0 :: counts => passItems fuel counts
  | fuel + 1, (n + 1) :: counts => do
    match ← head with
    | .null | .flag | .number _ | .signed _ => passItems fuel (n :: counts)
    | .real width => let _ ← take width; passItems fuel (n :: counts)
    | .text length | .binary length => let _ ← take length; passItems fuel (n :: counts)
    | .foreign length => do
      let _ ← take (length + 1)
      if counts.length + 1 < depthLimit then passItems fuel (n :: counts) else failure
    | .array length => descend fuel length (n :: counts)
    | .map length => descend fuel (2 * length) (n :: counts)
where
  /-- Goes one level down, if the depth allows. -/
  descend (fuel : Nat) (length : Nat) (counts : List Nat) : Reader Unit :=
    if counts.length < depthLimit then passItems fuel (length :: counts) else failure

/-- Passes over one item of a record. -/
def passItem : Reader Unit := fun bytes =>
  passItems (2 * bytes.length + 2) [1] bytes

/-! ## Values -/

/-- Reads an unsigned number below a limit. -/
def word (limit : Nat) : Reader Nat := do
  match ← head with
  | .number n => if n < limit then return n else failure
  | .signed n => if 0 ≤ n ∧ n < limit then return n.toNat else failure
  | _ => failure

/-- Reads the bytes of a text or a binary string. -/
def textBytes : Reader Bytes := do
  match ← head with
  | .text length | .binary length => take length
  | _ => failure

/-- Reads a text, which may also be given as a binary string. -/
def text : Reader String := do
  match Text.ofUtf8? (← textBytes) with
  | some s => return s
  | none => failure

/-- Reads a time, which has to be given as a text. -/
def time : Reader Time.Instant := do
  match ← head with
  | .text length =>
    match (Text.ofUtf8? (← take length)).bind Time.Rfc3339.read? with
    | some t => return t
    | none => failure
  | _ => failure

/-- Reads `n` items. -/
def items {α : Type} (item : Reader α) : (n : Nat) → Reader (List α)
  | 0 => return []
  | n + 1 => do
    let x ← item
    return x :: (← items item n)

/-- The items that the bytes of a binary string stand for. -/
def ofBinary? (k : Kind) (bytes : Bytes) : Option (List k.Val) :=
  match k with
  | .byte => some bytes
  | .word32 => some (bytes.map fun b => UInt32.ofNat b.toNat)
  | .word64 => some (bytes.map fun b => UInt64.ofNat b.toNat)
  | _ => if bytes.isEmpty then some [] else none

/-- Reads the name or number of one of the named alternatives. The number has to be in an unsigned
form. -/
def alternative (names : List String) : Reader (Fin names.length) := do
  match ← head with
  | .number n =>
    if h : n < names.length then return ⟨n, h⟩ else failure
  | .text length | .binary length =>
    let bytes ← take length
    match (Text.ofUtf8? bytes).bind fun name => names.finIdxOf? name with
    | some i => return i
    | none => failure
  | _ => failure

/-- Reads one of the named alternatives, alone or as the only key of a map to null. -/
def choice (names : List String) : Reader (Fin names.length) := fun bytes =>
  match head bytes with
  | some (.map length, rest) =>
    if length = 1 then do
      let (i, rest) ← alternative names rest
      match ← head rest with
      | (.null, rest) => some (i, rest)
      | _ => none
    else none
  | _ => alternative names bytes

/-- Reads a value of a kind. -/
def value : (k : Kind) → Reader k.Val
  | .byte => do return UInt8.ofNat (← word 256)
  | .word32 => do return UInt32.ofNat (← word 0x1_0000_0000)
  | .word64 => do return UInt64.ofNat (← word 0x1_0000_0000_0000_0000)
  | .text => text
  | .time => time
  | .list item => do
    match ← head with
    | .array length => items (value item) length
    | .binary length =>
      match ofBinary? item (← take length) with
      | some xs => return xs
      | none => failure
    | _ => failure
  | .optional item => fun bytes =>
    match bytes with
    | 0xC0 :: rest => some (none, rest)
    | _ => do
      let (x, rest) ← value item bytes
      return (some x, rest)
  | .choice names => choice names

/-! ## Records -/

/-- How an entry of a map says which field it is for. -/
inductive Key where
  | name (bytes : Bytes)
  | number (n : Nat)

/-- Reads the key of an entry. A number has to be in an unsigned form, even if no field has it. -/
def key : Reader Key := do
  match ← head with
  | .text length | .binary length => return .name (← take length)
  | .number n => return .number n
  | _ => failure

/-- Whether a key stands for the field with this name at this position. -/
def Key.isFor (key : Key) (position : Nat) (name : String) : Bool :=
  match key with
  | .name bytes => bytes == Text.utf8 name
  | .number n => n == position

/-- Reads the value of an entry into its field, the first field having number `position`. Gives
nothing if the key stands for no field. A field that has a value already refuses another one. -/
def entry (key : Key) : (fs : List Field) → (position : Nat) → Partial fs →
    Option (Reader (Partial fs))
  | [], _, _ => none
  | f :: fs, position, (old, rest) =>
    if key.isFor position f.name then
      some <| match old with
        | some _ => failure
        | none => do
          let x ← value f.kind
          return (some x, rest)
    else (entry key fs (position + 1) rest).map fun read => do return (old, ← read)

/-- Reads `n` entries of a map. -/
def entries (fs : List Field) : (n : Nat) → Partial fs → Reader (Partial fs)
  | 0, known => return known
  | n + 1, known => do
    let k ← key
    let known ← match entry k fs 0 known with
      | some read => read
      | none => do
        passItem
        pure known
    entries fs n known

/-- Reads the fields from an array of `n` items, in order. Trailing fields with a default may be
missing, and there may be no further item. -/
def elements : (fs : List Field) → (n : Nat) → Reader (Partial fs)
  | [], 0 => return ()
  | [], _ + 1 => failure
  | _ :: fs, 0 => do return (none, ← elements fs 0)
  | f :: fs, n + 1 => do
    let x ← value f.kind
    return (some x, ← elements fs n)

/-- Reads a row. -/
def row (fs : List Field) : Reader (Row fs) := do
  let known ← match ← head with
    | .map length => entries fs length (Partial.empty fs)
    | .array length => elements fs length
    | _ => failure
  match Partial.complete? fs known with
  | some r => return r
  | none => failure

/-- Reads a stored record. -/
def decode? {α : Type} [Record α] (bytes : Bytes) : Option α :=
  (row (Record.fields α) bytes).map fun (r, _) => Record.ofRow r

/-- Reads a stored alternative. -/
def decodeChoice? {α : Type} [Choice α] (bytes : Bytes) : Option α :=
  (choice (Choice.names α) bytes).map fun (i, _) => Choice.ofIndex i

end Gatehouse.MessagePack
