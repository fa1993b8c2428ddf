import Gatehouse.Bytes

/-!
# Base64

The standard alphabet with padding. Reading accepts exactly what writing produces: the length is a
multiple of four, padding is present, and the bits that padding leaves over are zero. Several
writings in a row, each with its padding, can be read as one as well.
-/

namespace Gatehouse.Base64

/-- The digit of a value below 64. -/
def digit (n : Nat) : Char :=
  if n < 26 then Char.ofNat (65 + n)
  else if n < 52 then Char.ofNat (71 + n)
  else if n < 62 then Char.ofNat (n - 4)
  else if n = 62 then '+'
  else '/'

/-- The value of a digit. -/
def value? (c : Char) : Option Nat :=
  if 'A' ≤ c ∧ c ≤ 'Z' then some (c.toNat - 65)
  else if 'a' ≤ c ∧ c ≤ 'z' then some (c.toNat - 71)
  else if '0' ≤ c ∧ c ≤ '9' then some (c.toNat + 4)
  else if c = '+' then some 62
  else if c = '/' then some 63
  else none

/-- Writes three bytes as four digits; the last one or two bytes are padded. -/
def encodeChars : Bytes → List Char
  | [] => []
  | [a] =>
    [digit (a.toNat / 4), digit (a.toNat % 4 * 16), '=', '=']
  | [a, b] =>
    [digit (a.toNat / 4), digit (a.toNat % 4 * 16 + b.toNat / 16), digit (b.toNat % 16 * 4), '=']
  | a :: b :: c :: rest =>
    digit (a.toNat / 4) :: digit (a.toNat % 4 * 16 + b.toNat / 16) ::
      digit (b.toNat % 16 * 4 + c.toNat / 64) :: digit (c.toNat % 64) :: encodeChars rest

/-- The padded writing of a byte string. -/
def encode (bytes : Bytes) : String :=
  String.ofList (encodeChars bytes)

/-- The writing of a byte string without its padding. -/
def encodeUnpadded (bytes : Bytes) : String :=
  String.ofList ((encodeChars bytes).filter (· ≠ '='))

/-- Reads padded digits. -/
def decodeChars? : List Char → Option Bytes
  | [] => some []
  | w :: x :: y :: z :: rest => do
    let a ← value? w
    let b ← value? x
    if y = '=' then
      if z = '=' ∧ rest = [] ∧ b % 16 = 0 then some [UInt8.ofNat (a * 4 + b / 16)] else none
    else
      let c ← value? y
      if z = '=' then
        if rest = [] ∧ c % 4 = 0 then
          some [UInt8.ofNat (a * 4 + b / 16), UInt8.ofNat (b % 16 * 16 + c / 4)]
        else none
      else
        let d ← value? z
        let tail ← decodeChars? rest
        some (UInt8.ofNat (a * 4 + b / 16) :: UInt8.ofNat (b % 16 * 16 + c / 4) ::
          UInt8.ofNat (c % 4 * 64 + d) :: tail)
  | _ => none

/-- Reads padded digits in which padding may end any group of four. -/
def decodeJoined? : List Char → Option Bytes
  | [] => some []
  | w :: x :: y :: z :: rest => do
    let group ← decodeChars? [w, x, y, z]
    let tail ← decodeJoined? rest
    some (group ++ tail)
  | _ => none

/-- The bytes written by a padded text. -/
def decode? (text : String) : Option Bytes :=
  decodeChars? text.toList

end Gatehouse.Base64
