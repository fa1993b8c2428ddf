import Gatehouse.Bytes

/-!
# ChaCha20

The stream cipher: a key, a nonce and a block counter give 64 bytes of key stream, and text is
enciphered and deciphered alike by adding the key stream to it bit by bit.
-/

namespace Gatehouse.Crypto.ChaCha20

/-- The sixteen words of the cipher's state. -/
abbrev Words := Vector UInt32 16

/-- Rotates a word to the left. -/
def rotl (x n : UInt32) : UInt32 :=
  (x <<< n) ||| (x >>> (32 - n))

/-- Mixes four of the words. -/
def quarterRound (s : Words) (a b c d : Fin 16) : Words :=
  let s := s.set a (s[a] + s[b])
  let s := s.set d (rotl (s[d] ^^^ s[a]) 16)
  let s := s.set c (s[c] + s[d])
  let s := s.set b (rotl (s[b] ^^^ s[c]) 12)
  let s := s.set a (s[a] + s[b])
  let s := s.set d (rotl (s[d] ^^^ s[a]) 8)
  let s := s.set c (s[c] + s[d])
  s.set b (rotl (s[b] ^^^ s[c]) 7)

/-- Mixes the columns and then the diagonals. -/
def doubleRound (s : Words) : Words :=
  let s := quarterRound s 0 4 8 12
  let s := quarterRound s 1 5 9 13
  let s := quarterRound s 2 6 10 14
  let s := quarterRound s 3 7 11 15
  let s := quarterRound s 0 5 10 15
  let s := quarterRound s 1 6 11 12
  let s := quarterRound s 2 7 8 13
  quarterRound s 3 4 9 14

/-- Mixes `n` times. -/
def rounds : Nat → Words → Words
  | 0, s => s
  | n + 1, s => rounds n (doubleRound s)

/-- The little-endian word at a position of a byte string. -/
def wordAt (bytes : Bytes) (i : Nat) : UInt32 :=
  UInt32.ofNat (Bytes.ofLittleEndian ((bytes.drop (4 * i)).take 4))

/-- The state before mixing: four constants, the key, the counter and the nonce. -/
def start (key nonce : Bytes) (counter : Nat) : Words :=
  Vector.ofFn fun i =>
    if i = 0 then 0x61707865
    else if i = 1 then 0x3320646e
    else if i = 2 then 0x79622d32
    else if i = 3 then 0x6b206574
    else if i.val < 12 then wordAt key (i.val - 4)
    else if i = 12 then UInt32.ofNat counter
    else wordAt nonce (i.val - 13)

/-- A block of key stream. -/
def block (key nonce : Bytes) (counter : Nat) : Bytes :=
  let s := start key nonce counter
  let mixed := rounds 10 s
  (s.toList.zip mixed.toList).flatMap fun (x, y) => Bytes.littleEndian 4 (x + y).toNat

/-- Adds the key stream, from a block counter on, to a text given in blocks. -/
def applyBlocks (key nonce : Bytes) : (counter : Nat) → List Bytes → Bytes
  | _, [] => []
  | counter, text :: more =>
    List.zipWith (· ^^^ ·) text (block key nonce counter) ++ applyBlocks key nonce (counter + 1) more

/-- Enciphers or deciphers a text, from block one on. -/
def apply (key nonce text : Bytes) : Bytes :=
  applyBlocks key nonce 1 (Bytes.blocks 64 text)

end Gatehouse.Crypto.ChaCha20
