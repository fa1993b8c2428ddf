import Gatehouse.Schema
import Gatehouse.Text.Utf8
import Gatehouse.Time.Rfc3339

/-!
# Writing MessagePack

The stored form of records: a map from field names to values in the order of the schema, with every
number and length in its shortest form.
-/

namespace Gatehouse.MessagePack

open Gatehouse.Bytes

/-- An unsigned number in its shortest form. -/
def writeWord (n : Nat) : Bytes :=
  if n < 128 then [UInt8.ofNat n]
  else if n < 0x100 then 0xCC :: bigEndian 1 n
  else if n < 0x1_0000 then 0xCD :: bigEndian 2 n
  else if n < 0x1_0000_0000 then 0xCE :: bigEndian 4 n
  else 0xCF :: bigEndian 8 n

/-- A text, led by its length in bytes. -/
def writeText (s : String) : Bytes :=
  let bytes := Text.utf8 s
  let n := bytes.length
  (if n < 32 then [UInt8.ofNat (0xA0 + n)]
    else if n < 0x100 then 0xD9 :: bigEndian 1 n
    else if n < 0x1_0000 then 0xDA :: bigEndian 2 n
    else 0xDB :: bigEndian 4 n) ++ bytes

/-- What leads an array of `n` items. -/
def arrayLead (n : Nat) : Bytes :=
  if n < 16 then [UInt8.ofNat (0x90 + n)]
  else if n < 0x1_0000 then 0xDC :: bigEndian 2 n
  else 0xDD :: bigEndian 4 n

/-- What leads a map of `n` entries. -/
def mapLead (n : Nat) : Bytes :=
  if n < 16 then [UInt8.ofNat (0x80 + n)]
  else if n < 0x1_0000 then 0xDE :: bigEndian 2 n
  else 0xDF :: bigEndian 4 n

/-- A value of a kind. -/
def writeValue : (k : Kind) → k.Val → Bytes
  | .byte, n => writeWord (UInt8.toNat n)
  | .word32, n => writeWord (UInt32.toNat n)
  | .word64, n => writeWord (UInt64.toNat n)
  | .text, s => writeText s
  | .time, t => writeText (Time.Rfc3339.write t)
  | .list item, xs =>
    arrayLead (List.length (α := item.Val) xs) ++ (xs : List item.Val).flatMap (writeValue item)
  | .optional item, x =>
    match (x : Option item.Val) with
    | none => [0xC0]
    | some x => writeValue item x
  | .choice names, i => writeText (names.get i)

/-- The entries of a record. -/
def writeEntries : (fs : List Field) → Row fs → Bytes
  | [], _ => []
  | f :: fs, (x, row) => writeText f.name ++ writeValue f.kind x ++ writeEntries fs row

/-- The stored form of a record. -/
def encode {α : Type} [Record α] (a : α) : Bytes :=
  mapLead (Record.fields α).length ++ writeEntries (Record.fields α) (Record.toRow a)

/-- The stored form of a named alternative. -/
def encodeChoice {α : Type} [Choice α] (a : α) : Bytes :=
  writeText ((Choice.names α).get (Choice.toIndex a))

end Gatehouse.MessagePack
