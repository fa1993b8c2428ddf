import Gatehouse.Text.Utf8
import Gatehouse.Time.Instant

/-!
# Recorded frames

A recording of a terminal is a sequence of frames: a header of twelve bytes with the second, the
microsecond and the length of the payload as little-endian words, and the payload. Forwarded traffic
is recorded as labelled text instead. `replay` reads a recording back.
-/

namespace Gatehouse.Recording

open Time (Unix)

/-- What leads a payload. The words are signed and wrap. -/
structure Header where
  sec : Int32
  usec : Int32
  len : Int32
deriving DecidableEq

namespace Header

/-- The number of bytes of a header. -/
def size : Nat := 12

/-- The header for a payload of some length at some time. A time before 1970 counts as 1970. -/
def ofTime (t : Unix) (length : Nat) : Header :=
  let t := t.carried
  if t.seconds < 0 then ⟨0, 0, Int32.ofNat length⟩
  else ⟨Int32.ofNat t.seconds.toNat, Int32.ofNat (t.nanos / 1000), Int32.ofNat length⟩

/-- The bytes of one word. -/
def word (n : Int32) : Bytes :=
  Bytes.littleEndian 4 n.toUInt32.toNat

/-- The word of four bytes. -/
def ofWord (bytes : Bytes) : Int32 :=
  Int32.ofNat (Bytes.ofLittleEndian bytes)

/-- The bytes of a header. -/
def encode (h : Header) : Bytes :=
  word h.sec ++ word h.usec ++ word h.len

/-- The header that some bytes start with. -/
def decode? (bytes : Bytes) : Option Header :=
  if bytes.length < size then none
  else some ⟨ofWord (bytes.take 4), ofWord ((bytes.drop 4).take 4), ofWord ((bytes.drop 8).take 4)⟩

end Header

/-- A frame. -/
def frame (t : Unix) (payload : Bytes) : Bytes :=
  (Header.ofTime t payload.length).encode ++ payload

/-- A labelled text. -/
def labelled (label : String) (payload : Bytes) : Bytes :=
  Text.utf8 label ++ Text.utf8 ": " ++ payload

/-- The frames of a recording, up to the first that is not complete; gives also the bytes that are
left over. -/
def replay (bytes : Bytes) : List (Header × Bytes) × Bytes :=
  match Header.decode? bytes with
  | none => ([], bytes)
  | some header =>
    let length := header.len.toInt.toNat
    if bytes.length < Header.size + length then ([], bytes)
    else
      let (frames, rest) := replay (bytes.drop (Header.size + length))
      ((header, (bytes.drop Header.size).take length) :: frames, rest)
termination_by bytes.length
decreasing_by
  simp only [List.length_drop, Header.size] at *
  omega

end Gatehouse.Recording
