import Gatehouse.Crypto.ChaCha20
import Gatehouse.Crypto.Poly1305

/-!
# Authenticated encryption

ChaCha20 and Poly1305 together: what is sealed can only be opened under the same key and nonce, and
only unchanged. The sealed text is the enciphered text followed by a tag of sixteen bytes.
-/

namespace Gatehouse.Crypto.Aead

/-- The length of a nonce. -/
def nonceLength : Nat := 12

/-- The length of a tag. -/
def tagLength : Nat := 16

/-- Zeros up to the next multiple of sixteen bytes. -/
def padding (length : Nat) : Bytes :=
  List.replicate ((16 - length % 16) % 16) 0

/-- The tag of an enciphered text. -/
def tag (key nonce enciphered : Bytes) : Bytes :=
  Poly1305.tag ((ChaCha20.block key nonce 0).take 32)
    (enciphered ++ padding enciphered.length ++ Bytes.littleEndian 8 0 ++
      Bytes.littleEndian 8 enciphered.length)

/-- Seals a text. -/
def sealText (key nonce text : Bytes) : Bytes :=
  let enciphered := ChaCha20.apply key nonce text
  enciphered ++ tag key nonce enciphered

/-- Opens a sealed text, if it was sealed under this key and nonce. -/
def open? (key nonce sealedText : Bytes) : Option Bytes :=
  let enciphered := sealedText.take (sealedText.length - tagLength)
  if sealedText.drop (sealedText.length - tagLength) = tag key nonce enciphered then
    some (ChaCha20.apply key nonce enciphered)
  else none

end Gatehouse.Crypto.Aead
