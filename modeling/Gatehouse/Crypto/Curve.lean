import Gatehouse.Bytes
import Gatehouse.Crypto.Modular

/-!
# Elliptic curves over prime fields

The three curves `y² = x³ - 3x + b` that keys can lie on, each with a base point of prime order.
The public point of a scalar is that multiple of the base point. Points are added in projective
coordinates by formulas without exceptional cases, so that doubling, the neutral point and opposite
points need no treatment of their own.
-/

namespace Gatehouse.Crypto

/-- The curves, by the size of their field in bits. -/
inductive Curve where
  | p256
  | p384
  | p521
deriving DecidableEq, Repr

namespace Curve

/-! ## Constants -/

/-- The prime of the field. -/
def prime : Curve → Nat
  | p256 => (1 <<< 256) - (1 <<< 224) + (1 <<< 192) + (1 <<< 96) - 1
  | p384 => (1 <<< 384) - (1 <<< 128) - (1 <<< 96) + (1 <<< 32) - 1
  | p521 => (1 <<< 521) - 1

/-- The number of bytes of a coordinate, and of a scalar. -/
def width : Curve → Nat
  | p256 => 32
  | p384 => 48
  | p521 => 66

/-- The constant term of the equation. -/
def constant : Curve → Nat
  | p256 => 0x5ac635d8aa3a93e7b3ebbd55769886bc651d06b0cc53b0f63bce3c3e27d2604b
  | p384 =>
    0xb3312fa7e23ee7e4988e056be3f82d19181d9c6efe8141120314088f5013875ac656398d8a2ed19d2a85c8edd3ec2aef
  | p521 =>
    0x51953eb9618e1c9a1f929a21a0b68540eea2da725b99b315f3b8b489918ef109e156193951ec7e937b1652c0bd3bb1bf073573df883d2c34f1ef451fd46b503f00

/-- The order of the base point. -/
def order : Curve → Nat
  | p256 => 0xffffffff00000000ffffffffffffffffbce6faada7179e84f3b9cac2fc632551
  | p384 =>
    0xffffffffffffffffffffffffffffffffffffffffffffffffc7634d81f4372ddf581a0db248b0a77aecec196accc52973
  | p521 =>
    0x1fffffffffffffffffffffffffffffffffffffffffffffffffffffffffffffffffa51868783bf2f966b7fcc0148f709a5d03bb5c9b8899c47aebb6fb71e91386409

/-- The first coordinate of the base point. -/
def baseX : Curve → Nat
  | p256 => 0x6b17d1f2e12c4247f8bce6e563a440f277037d812deb33a0f4a13945d898c296
  | p384 =>
    0xaa87ca22be8b05378eb1c71ef320ad746e1d3b628ba79b9859f741e082542a385502f25dbf55296c3a545e3872760ab7
  | p521 =>
    0xc6858e06b70404e9cd9e3ecb662395b4429c648139053fb521f828af606b4d3dbaa14b5e77efe75928fe1dc127a2ffa8de3348b3c1856a429bf97e7e31c2e5bd66

/-- The second coordinate of the base point. -/
def baseY : Curve → Nat
  | p256 => 0x4fe342e2fe1a7f9b8ee7eb4a7c0f9e162bce33576b315ececbb6406837bf51f5
  | p384 =>
    0x3617de4a96262c6f5d9e98bf9292dc29f8f41dbd289a147ce9da3113b5f0b8c00a60b1ce1d7e819d7a431d7c90ea0e5f
  | p521 =>
    0x11839296a789a3bc0045c8a5fb42c7d1bd998f54449579b446817afbd17273e662c97ee72995ef42640c550b9013fad0761353c7086a272c24088be94769fd16650

/-! ## Points -/

/-- A point in projective coordinates: `x / z` and `y / z`; the neutral point has `z = 0`. -/
structure Point where
  x : Int
  y : Int
  z : Int

/-- The neutral point. -/
def neutral : Point := ⟨0, 1, 0⟩

/-- The base point. -/
def base (c : Curve) : Point := ⟨c.baseX, c.baseY, 1⟩

/-- The sum of two points. -/
def add (c : Curve) (p q : Point) : Point :=
  let b : Int := c.constant
  let xx := p.x * q.x
  let yy := p.y * q.y
  let zz := p.z * q.z
  let xy := p.x * q.y + q.x * p.y
  let xz := p.x * q.z + q.x * p.z
  let yz := p.y * q.z + q.y * p.z
  let above := yy + 3 * xz - 3 * b * zz
  let below := yy - 3 * xz + 3 * b * zz
  let cross := 3 * b * xz - 3 * xx - 9 * zz
  let slope := 3 * xx - 3 * zz
  let reduce (n : Int) : Int := n % c.prime
  ⟨reduce (xy * above - yz * cross), reduce (slope * cross + below * above),
    reduce (yz * below + xy * slope)⟩

/-- A multiple of a point, by the binary digits of the scalar. -/
def multiple (c : Curve) (scalar : Nat) (p : Point) : Point :=
  if scalar = 0 then neutral
  else
    let half := c.multiple (scalar / 2) (c.add p p)
    if scalar % 2 = 1 then c.add half p else half
termination_by scalar
decreasing_by omega

/-- The coordinates of a point that is not neutral. -/
def coordinates (c : Curve) (p : Point) : Nat × Nat :=
  let inverse := powerMod c.prime p.z.toNat (c.prime - 2)
  (p.x.toNat * inverse % c.prime, p.y.toNat * inverse % c.prime)

/-! ## Keys -/

/-- The scalar written by these bytes, which has to be positive and below the order. -/
def scalar? (c : Curve) (bytes : Bytes) : Option Nat :=
  let k := Bytes.ofBigEndian bytes
  if 0 < k ∧ k < c.order then some k else none

/-- Both coordinates of a point, led by a 4. -/
def uncompressed (c : Curve) (xy : Nat × Nat) : Bytes :=
  4 :: Bytes.bigEndian c.width xy.1 ++ Bytes.bigEndian c.width xy.2

/-- The first coordinate of a point, led by a 2 or a 3 that tells the parity of the second. -/
def compressed (c : Curve) (xy : Nat × Nat) : Bytes :=
  UInt8.ofNat (2 + xy.2 % 2) :: Bytes.bigEndian c.width xy.1

/-- The coordinates of the public point of a scalar. -/
def publicPoint (c : Curve) (scalar : Nat) : Nat × Nat :=
  c.coordinates (c.multiple scalar c.base)

end Curve

end Gatehouse.Crypto
