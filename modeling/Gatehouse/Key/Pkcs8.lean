import Gatehouse.Key.Der
import Gatehouse.Key.Secret

/-!
# The PKCS #8 form of private keys

Ed25519 keys and keys on the elliptic curves. A curve key may also stand alone, without the frame
that names its algorithm; it then has to name its curve itself.
-/

namespace Gatehouse.Key.Pkcs8

open Crypto (Curve)

/-- The object identifier of Ed25519 keys. -/
def ed25519Id : Bytes := [0x2B, 0x65, 0x70]

/-- The object identifier of keys on a curve. -/
def curveKeyId : Bytes := [0x2A, 0x86, 0x48, 0xCE, 0x3D, 0x02, 0x01]

/-- The curve of an object identifier. -/
def curve? (id : Bytes) : Option Curve :=
  if id = [0x2A, 0x86, 0x48, 0xCE, 0x3D, 0x03, 0x01, 0x07] then some .p256
  else if id = [0x2B, 0x81, 0x04, 0x00, 0x22] then some .p384
  else if id = [0x2B, 0x81, 0x04, 0x00, 0x23] then some .p521
  else none

/-- The curve that an element names. -/
def curveOf? (e : Der.Element) : Option Curve :=
  if e.tag = Der.identifier then curve? e.content else none

/-! ## Curve keys -/

/-- A key on a curve: the scalar, and what may be said of the curve and of the point. -/
structure CurveKey where
  scalar : Bytes
  curve : Option Der.Element
  point : Option Bytes

/-- Reads an optional part. -/
def optional {α : Type} (read : Der.Element → Option α) : Option Der.Element → Option (Option α)
  | none => some none
  | some e => (read e).map some

/-- Reads a key on a curve. -/
def CurveKey.read (bytes : Bytes) : Option CurveKey := do
  match ← (← Der.single? bytes).members? with
  | version :: scalar :: rest =>
    if version = ⟨Der.integer, [1]⟩ ∧ scalar.tag = Der.octetString then
      let (parameters, rest) := Der.takeNumbered 0 rest
      let (point, rest) := Der.takeNumbered 1 rest
      let curve ← optional (fun e => do
        let id ← e.unwrap? (Der.wrapped 0)
        if id.tag = Der.identifier then some id else none) parameters
      let point ← optional (fun e => do
        let bits ← e.unwrap? (Der.wrapped 1)
        if bits.tag = Der.bitString then bits.bits? else none) point
      if rest.isEmpty then some ⟨scalar.content, curve, point⟩ else none
    else none
  | _ => none

/-- The fewest bytes that a scalar is written in. -/
def scalarSize : Nat := 24

/-- The key pair of a key on a curve. A point that is given has to be the point of the scalar. -/
def CurveKey.pair (key : CurveKey) (curve : Curve) : Option PrivateKey := do
  let scalar := List.replicate (curve.width - key.scalar.length) 0 ++ key.scalar
  let k ← curve.scalar? scalar
  let xy := curve.publicPoint k
  if scalarSize ≤ key.scalar.length ∧ key.scalar.length ≤ curve.width ∧
      key.curve.all (curve? ·.content = some curve) ∧
      key.point.all ([curve.uncompressed xy, curve.compressed xy].contains ·) then
    some ⟨{ material := .ecdsa curve (curve.uncompressed xy) }, .scalar scalar⟩
  else none

/-! ## The frame -/

/-- The algorithm of a key, with its parameters, and the key in its own form. -/
structure Frame where
  algorithm : Bytes
  parameters : Option Der.Element
  key : Bytes
  point : Option Bytes

/-- Reads the frame. A public half is there exactly from version 1 on; further parts are passed over
if each is a wrapper around one element. -/
def Frame.read (bytes : Bytes) : Option Frame := do
  match ← (← Der.single? bytes).members? with
  | version :: algorithm :: key :: rest =>
    let (point, rest) := Der.takeNumbered 1 rest
    let point ← optional (fun e => if e.tag = Der.numbered 1 then e.bits? else none) point
    let hasPoint ← if version = ⟨Der.integer, [0]⟩ then some false
      else if version = ⟨Der.integer, [1]⟩ then some true
      else none
    let (id, parameters) ← match ← algorithm.members? with
      | [id] => some (id, none)
      | [id, parameters] => some (id, some parameters)
      | _ => none
    if id.tag = Der.identifier ∧ key.tag = Der.octetString ∧ point.isSome = hasPoint ∧
        rest.all (·.isWrapper) then
      some ⟨id.content, parameters, key.content, point⟩
    else none
  | _ => none

/-- The key pair of an Ed25519 seed. The public half is not compared. -/
def Frame.ed25519? (f : Frame) : Option PrivateKey := do
  let seed := f.key.drop 2
  if f.parameters.isNone ∧ f.key.take 2 = [Der.octetString, 0x20] ∧ seed.length = 32 ∧
      f.point.all (·.length = 32) then
    some (.ofSeed seed)
  else none

/-- The key pair of whatever the frame holds. -/
def Frame.pair? (f : Frame) : Option PrivateKey := do
  if f.algorithm = ed25519Id then f.ed25519?
  else if f.algorithm = curveKeyId then
    (← CurveKey.read f.key).pair (← curveOf? (← f.parameters))
  else none

/-- Reads a key with or without the frame. A key without either a frame or a curve could be of any
kind. -/
def read (bytes : Bytes) : Except KeyFault PrivateKey :=
  match Frame.read bytes with
  | some f => f.pair?.elim (.error .unreadable) .ok
  | none =>
    match CurveKey.read bytes with
    | some key =>
      match key.curve with
      | some id => ((curveOf? id).bind key.pair).elim (.error .unreadable) .ok
      | none => .error .unrecognised
    | none => .error .unreadable

end Gatehouse.Key.Pkcs8
