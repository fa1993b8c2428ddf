import Gatehouse.Crypto.Modular
import Gatehouse.Crypto.Sha512

/-!
# Ed25519 public keys

The public key of a seed: the seed is hashed to a secret scalar, the base point of the twisted
Edwards curve is multiplied by it, and the product is written as its second coordinate with the
parity of the first in the top bit.
-/

namespace Gatehouse.Crypto.Ed25519

/-- The prime of the field. -/
def prime : Nat := (1 <<< 255) - 19

/-- The inverse of a number that is not a multiple of the prime. -/
def inverse (x : Nat) : Nat :=
  powerMod prime x (prime - 2)

/-- The difference of two residues. -/
def sub (x y : Nat) : Nat :=
  (x + prime - y % prime) % prime

/-- The constant of the curve, -121665/121666. -/
def curveConstant : Nat :=
  sub 0 (121665 * inverse 121666)

/-- A point in extended coordinates: `x / z`, `y / z`, and `t = x · y / z`. -/
structure Point where
  x : Nat
  y : Nat
  z : Nat
  t : Nat

/-- The neutral point. -/
def neutral : Point := ⟨0, 1, 1, 0⟩

/-- The base point, of second coordinate 4/5. -/
def base : Point :=
  let x := 15112221349535400772501151409588531511454012693041857206046113283949847762202
  let y := 46316835694926478169428394003475163141307993866256225615783033603165251855960
  ⟨x, y, 1, x * y % prime⟩

/-- The sum of two points. -/
def add (constant : Nat) (p q : Point) : Point :=
  let a := sub p.y p.x * sub q.y q.x % prime
  let b := (p.y + p.x) * (q.y + q.x) % prime
  let c := 2 * p.t * q.t % prime * constant % prime
  let d := 2 * p.z * q.z % prime
  let e := sub b a
  let f := sub d c
  let g := (d + c) % prime
  let h := (b + a) % prime
  ⟨e * f % prime, g * h % prime, f * g % prime, e * h % prime⟩

/-- A multiple of a point, by the binary digits of the scalar. -/
def multiple (constant scalar : Nat) (p : Point) : Point :=
  if scalar = 0 then neutral
  else
    let half := multiple constant (scalar / 2) (add constant p p)
    if scalar % 2 = 1 then add constant half p else half
termination_by scalar
decreasing_by omega

/-- The 32 bytes of a point. -/
def encode (p : Point) : Bytes :=
  let z := inverse p.z
  let x := p.x * z % prime
  let y := p.y * z % prime
  Bytes.littleEndian 32 (y + ((x % 2) <<< 255))

/-- The secret scalar of a seed: the low half of its hash, a multiple of eight with its second
highest bit set. -/
def scalar (seed : Bytes) : Nat :=
  let n := Bytes.ofLittleEndian ((Sha512.digest seed).take 32) % (1 <<< 254)
  (1 <<< 254) + (n - n % 8)

/-- The public key of a seed. -/
def publicKey (seed : Bytes) : Bytes :=
  encode (multiple curveConstant (scalar seed) base)

end Gatehouse.Crypto.Ed25519
