import Gatehouse.Bytes

/-!
# UTF-8

Text and its UTF-8 bytes. Strict reading refuses anything that is not UTF-8; lossy reading puts one
replacement character in the place of each longest start of a well-formed sequence that is not
completed, or of a single byte that starts none.
-/

namespace Gatehouse.Text

/-- The UTF-8 bytes of a text. -/
def utf8 (s : String) : Bytes :=
  s.toUTF8.data.toList

/-- The text with these UTF-8 bytes. -/
def ofUtf8? (bytes : Bytes) : Option String :=
  String.fromUTF8? ⟨bytes.toArray⟩

/-- The number of UTF-8 bytes of a text. -/
def utf8Size (s : String) : Nat :=
  s.utf8ByteSize

/-- What the lead byte of a sequence asks for: how many bytes follow, the range of the first of
them, and the bits the lead byte itself contributes. -/
structure Lead where
  following : Nat
  low : UInt8
  high : UInt8
  bits : Nat

/-- The demands of a lead byte, for the bytes that can lead a sequence of two to four bytes. -/
def Lead.of? (b : UInt8) : Option Lead :=
  if 0xC2 ≤ b ∧ b ≤ 0xDF then some ⟨1, 0x80, 0xBF, b.toNat % 32⟩
  else if b = 0xE0 then some ⟨2, 0xA0, 0xBF, 0⟩
  else if b = 0xED then some ⟨2, 0x80, 0x9F, 13⟩
  else if 0xE1 ≤ b ∧ b ≤ 0xEF then some ⟨2, 0x80, 0xBF, b.toNat % 16⟩
  else if b = 0xF0 then some ⟨3, 0x90, 0xBF, 0⟩
  else if 0xF1 ≤ b ∧ b ≤ 0xF3 then some ⟨3, 0x80, 0xBF, b.toNat % 8⟩
  else if b = 0xF4 then some ⟨3, 0x80, 0x8F, 4⟩
  else none

/-- Takes the bytes that continue a sequence as far as they fit. Gives the character of a completed
sequence, and the number of bytes used in any case. -/
def continued (bytes : Bytes) (following : Nat) (low high : UInt8) (bits : Nat) :
    Option Char × Nat :=
  match following, bytes with
  | 0, _ => (some (Char.ofNat bits), 0)
  | _ + 1, [] => (none, 0)
  | following + 1, b :: rest =>
    if low ≤ b ∧ b ≤ high then
      let (c, used) := continued rest following 0x80 0xBF (bits * 64 + b.toNat % 64)
      (c, used + 1)
    else (none, 0)

/-- Reads bytes as UTF-8, with a replacement character for what is malformed. -/
def lossyChars (bytes : Bytes) : List Char :=
  match bytes with
  | [] => []
  | b :: rest =>
    if b < 0x80 then Char.ofNat b.toNat :: lossyChars rest
    else
      match Lead.of? b with
      | none => '\uFFFD' :: lossyChars rest
      | some lead =>
        let (c, used) := continued rest lead.following lead.low lead.high lead.bits
        c.getD '\uFFFD' :: lossyChars (rest.drop used)
termination_by bytes.length
decreasing_by all_goals (simp only [List.length_drop, List.length_cons]; omega)

/-- Reads bytes as UTF-8, with a replacement character for what is malformed. -/
def ofUtf8Lossy (bytes : Bytes) : String :=
  String.ofList (lossyChars bytes)

end Gatehouse.Text
