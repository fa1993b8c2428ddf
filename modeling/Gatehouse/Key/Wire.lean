import Gatehouse.Bytes
import Gatehouse.Text.Utf8

/-!
# The wire form of key material

Byte strings led by their length in four bytes, most significant first, of which keys and key files
are made.
-/

namespace Gatehouse.Key.Wire

/-- A reader consumes the front of a byte string, or refuses it. -/
abbrev Reader (α : Type) := StateT Bytes Option α

/-- The largest length that is read. -/
def lengthLimit : Nat := 0xFFFFF

/-- The longest name of an algorithm, a cipher or a curve, in bytes. -/
def nameLimit : Nat := 48

/-- Takes the next `n` bytes. -/
def take (n : Nat) : Reader Bytes := fun bytes =>
  if n ≤ bytes.length then some (bytes.take n, bytes.drop n) else none

/-- Takes a number of four bytes. -/
def word : Reader Nat := do
  return Bytes.ofBigEndian (← take 4)

/-- Takes a length or a count. -/
def length : Reader Nat := do
  let n ← word
  if n ≤ lengthLimit then return n else failure

/-- Takes a byte string with its length. -/
def string : Reader Bytes := do
  take (← length)

/-- Takes a length and reads from no more bytes than that. What is not read of them stays. -/
def within {α : Type} (read : Reader α) : Reader α := do
  let n ← length
  fun bytes => do
    let (a, rest) ← read (bytes.take n)
    return (a, rest ++ bytes.drop n)

/-- Takes a value of `n` bytes with a length that covers it. -/
def fixed (n : Nat) : Reader Bytes :=
  within (take n)

/-- Takes a text with its length. -/
def text : Reader String := do
  match Text.ofUtf8? (← string) with
  | some s => return s
  | none => failure

/-- Takes a name with its length. -/
def name : Reader String := do
  let s ← text
  if Text.utf8Size s ≤ nameLimit then return s else failure

/-- Whether a number is written in the fewest bytes: no leading zero but one before a high bit. -/
def isMinimal : Bytes → Bool
  | [0] => false
  | 0 :: b :: _ => b ≥ 0x80
  | _ => true

/-- Takes a number of any size. -/
def integer : Reader Bytes := do
  let bytes ← string
  if isMinimal bytes then return bytes else failure

/-- Takes the given name with its length. -/
def expect (given : String) : Reader Unit := do
  if (← name) = given then return () else failure

/-- Reads a whole byte string and refuses anything that is left over. -/
def whole? {α : Type} (read : Reader α) (bytes : Bytes) : Option α :=
  match read bytes with
  | some (a, []) => some a
  | _ => none

/-- A byte string with its length. -/
def write (bytes : Bytes) : Bytes :=
  Bytes.bigEndian 4 bytes.length ++ bytes

end Gatehouse.Key.Wire
