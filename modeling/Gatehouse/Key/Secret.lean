import Gatehouse.Crypto.Ed25519
import Gatehouse.Key.Public

/-!
# Private keys

A private key is a public key with the secret that belongs to it.
-/

namespace Gatehouse.Key

/-- What the owner of a public key alone knows. -/
inductive Secret where
  /-- The seed of an Ed25519 key. -/
  | seed (bytes : Bytes)
  /-- The scalar of a point on a curve, as wide as a coordinate. -/
  | scalar (bytes : Bytes)
  /-- The secret numbers of a DSA or an RSA key. -/
  | numbers (values : List Bytes)
  /-- How a security token finds the key that it holds. -/
  | token (flags : Bytes) (handle reserved : Bytes)
  /-- The secret of an algorithm that some domain defines. -/
  | foreign (bytes : Bytes)
deriving DecidableEq

/-- A private key that can be used: its public half, and the secret itself. -/
structure PrivateKey where
  publicKey : PublicKey
  secret : Secret
deriving DecidableEq

/-- The key of an Ed25519 seed. -/
def PrivateKey.ofSeed (seed : Bytes) : PrivateKey :=
  ⟨PublicKey.ofEd25519 (Crypto.Ed25519.publicKey seed), .seed seed⟩

/-- Why a key file gives no key. -/
inductive KeyFault where
  /-- Nothing in the file names a known kind of key. -/
  | unrecognised
  /-- The content does not have the form of its kind, or needs a passphrase. -/
  | unreadable
deriving DecidableEq, Repr

end Gatehouse.Key
