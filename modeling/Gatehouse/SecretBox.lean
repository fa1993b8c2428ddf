import Gatehouse.Base64
import Gatehouse.Crypto.Aead
import Gatehouse.Crypto.Sha256
import Gatehouse.Text.Blank
import Gatehouse.Text.Utf8

/-!
# Secrets at rest

Passwords and private keys may be stored sealed under a configured secret. A stored value is the
Base64 form of a nonce, the enciphered text and its tag. Without a secret the box is disabled and
leaves every text as it is.
-/

namespace Gatehouse

/-- A box that seals texts, or a disabled one. -/
structure SecretBox where
  key : Option Bytes
deriving DecidableEq

namespace SecretBox

/-- Why a stored value cannot be opened. -/
inductive Failure where
  | notBase64
  | truncated
  | notOurs
  | notText
deriving DecidableEq, Repr

/-- The wording of a failure, where it has one of its own. -/
def Failure.message : Failure → String
  | .notBase64 => ""
  | .truncated => "Stored value is too short to be a ciphertext"
  | .notOurs => "Decryption failed (wrong key or corrupted data)"
  | .notText => "Decrypted value is not valid UTF-8"

/-- The box that leaves everything as it is. -/
def disabled : SecretBox := ⟨none⟩

/-- The box of a configured secret; the empty secret disables it. -/
def ofSecret (secret : String) : SecretBox :=
  if secret = "" then disabled else ⟨some (Crypto.Sha256.digest (Text.utf8 secret))⟩

/-- Whether the box seals at all. -/
def isEnabled (box : SecretBox) : Bool :=
  box.key.isSome

/-- What a log line shows of the box. -/
def describe (box : SecretBox) : String :=
  "SecretBox \x7b enabled: " ++ (if box.isEnabled then "true" else "false") ++ " \x7d"

/-- Seals a text with a nonce. -/
def encrypt (box : SecretBox) (nonce : Bytes) (plain : String) : String :=
  match box.key with
  | none => plain
  | some key => Base64.encode (nonce ++ Crypto.Aead.sealText key nonce (Text.utf8 plain))

/-- Opens a stored value, around which white space does not count. -/
def decrypt (box : SecretBox) (stored : String) : Except Failure String :=
  match box.key with
  | none => .ok stored
  | some key =>
    match Base64.decodeChars? (Text.trimChars stored.toList) with
    | none => .error .notBase64
    | some bytes =>
      if bytes.length < Crypto.Aead.nonceLength + Crypto.Aead.tagLength then .error .truncated
      else
        match Crypto.Aead.open? key (bytes.take Crypto.Aead.nonceLength)
            (bytes.drop Crypto.Aead.nonceLength) with
        | none => .error .notOurs
        | some plain =>
          match Text.ofUtf8? plain with
          | none => .error .notText
          | some text => .ok text

/-- Opens a stored value, or takes it as it is if it cannot be opened. -/
def decryptOrRaw (box : SecretBox) (stored : String) : String :=
  match box.decrypt stored with
  | .ok text => text
  | .error _ => stored

end SecretBox

end Gatehouse
