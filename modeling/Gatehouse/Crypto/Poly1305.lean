import Gatehouse.Bytes

/-!
# Poly1305

The one-time authenticator: the message as a polynomial over the integers modulo 2^130 - 5,
evaluated at a clamped half of the key, with the other half added.
-/

namespace Gatehouse.Crypto.Poly1305

/-- The modulus. -/
def modulus : Nat := (1 <<< 130) - 5

/-- The bits of the evaluation point that are kept. -/
def clampMask : Nat := 0x0ffffffc0ffffffc0ffffffc0fffffff

/-- The coefficient of a block of at most sixteen bytes: its number, with a one byte on top. -/
def coefficient (block : Bytes) : Nat :=
  Bytes.ofLittleEndian (block ++ [1])

/-- The tag of a message under a one-time key of 32 bytes. -/
def tag (key message : Bytes) : Bytes :=
  let r := Bytes.ofLittleEndian (key.take 16) &&& clampMask
  let s := Bytes.ofLittleEndian ((key.drop 16).take 16)
  let value := (Bytes.blocks 16 message).foldl
    (fun acc block => (acc + coefficient block) * r % modulus) 0
  Bytes.littleEndian 16 (value + s)

end Gatehouse.Crypto.Poly1305
