import Gatehouse.Bytes

/-!
# Keyed checksums

The construction HMAC over a hash with blocks of 64 bytes.
-/

namespace Gatehouse.Crypto

/-- The checksum of a message under a key. A key longer than a block is hashed first. -/
def hmac (digest : Bytes → Bytes) (key message : Bytes) : Bytes :=
  let key := if key.length ≤ 64 then key else digest key
  let block := key ++ List.replicate (64 - key.length) 0
  let masked (mask : UInt8) := block.map (· ^^^ mask)
  digest (masked 0x5C ++ digest (masked 0x36 ++ message))

end Gatehouse.Crypto
