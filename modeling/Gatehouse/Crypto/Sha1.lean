import Gatehouse.Bytes

/-!
# SHA-1

The hash in the checksum of older PuTTY key files.
-/

namespace Gatehouse.Crypto.Sha1

/-- The five words that the compression works on. -/
structure State where
  a : UInt32
  b : UInt32
  c : UInt32
  d : UInt32
  e : UInt32

/-- The starting state. -/
def initial : State := ⟨0x67452301, 0xefcdab89, 0x98badcfe, 0x10325476, 0xc3d2e1f0⟩

/-- Rotates a word to the left. -/
def rotl (x n : UInt32) : UInt32 :=
  (x <<< n) ||| (x >>> (32 - n))

/-- The word that enters the schedule after these sixteen, most recent first. -/
def nextWord (recent : List UInt32) : UInt32 :=
  let word (i : Nat) := recent.getD i 0
  rotl (word 2 ^^^ word 7 ^^^ word 13 ^^^ word 15) 1

/-- Extends the schedule, which is kept most recent word first. -/
def extend : Nat → List UInt32 → List UInt32
  | 0, words => words
  | n + 1, words => extend n (nextWord words :: words)

/-- The mixture of three words in a round, and the constant of the round. -/
def mixture (i : Nat) (b c d : UInt32) : UInt32 × UInt32 :=
  if i < 20 then ((b &&& c) ||| (~~~b &&& d), 0x5a827999)
  else if i < 40 then (b ^^^ c ^^^ d, 0x6ed9eba1)
  else if i < 60 then ((b &&& c) ||| (b &&& d) ||| (c &&& d), 0x8f1bbcdc)
  else (b ^^^ c ^^^ d, 0xca62c1d6)

/-- One round with its number and a word of the schedule. -/
def round (s : State) (i : Nat) (w : UInt32) : State :=
  let (f, k) := mixture i s.b s.c s.d
  ⟨rotl s.a 5 + f + s.e + k + w, s.a, rotl s.b 30, s.c, s.d⟩

/-- Takes a block of 64 bytes into the state. -/
def compress (s : State) (block : Bytes) : State :=
  let first := (Bytes.blocks 4 block).map fun word => UInt32.ofNat (Bytes.ofBigEndian word)
  let schedule := (extend 64 first.reverse).reverse
  let r := schedule.zipIdx.foldl (fun r (w, i) => round r i w) s
  ⟨s.a + r.a, s.b + r.b, s.c + r.c, s.d + r.d, s.e + r.e⟩

/-- The message with a one bit, zeros, and its length in bits in the last 8 bytes of a block. -/
def pad (message : Bytes) : Bytes :=
  let zeros := (64 - (message.length + 1 + 8) % 64) % 64
  message ++ [0x80] ++ List.replicate zeros 0 ++ Bytes.bigEndian 8 (8 * message.length)

/-- The digest of a message. -/
def digest (message : Bytes) : Bytes :=
  let s := (Bytes.blocks 64 (pad message)).foldl compress initial
  [s.a, s.b, s.c, s.d, s.e].flatMap fun w => Bytes.bigEndian 4 w.toNat

end Gatehouse.Crypto.Sha1
