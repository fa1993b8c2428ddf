import Gatehouse.Base64
import Gatehouse.Crypto.Curve
import Gatehouse.Key.Wire
import Gatehouse.Text.Blank

/-!
# Public keys

A public key is a blob that starts with the name of its algorithm. Its line form is that name, the
Base64 form of the blob and an optional comment. Users' keys are looked up by the first two of these
words, which say exactly which key it is.
-/

namespace Gatehouse.Key

open Crypto (Curve)

/-! ## Algorithms -/

/-- The name of a curve in blobs. -/
def curveName : Curve → String
  | .p256 => "nistp256"
  | .p384 => "nistp384"
  | .p521 => "nistp521"

/-- What a public key consists of. Numbers are in their written form, points in the form they were
given in. -/
inductive Material where
  | dsa (p q g y : Bytes)
  | rsa (exponent modulus : Bytes)
  | ecdsa (curve : Curve) (point : Bytes)
  | ed25519 (point : Bytes)
  /-- A key that a security token holds, with the application it is for. -/
  | tokenEcdsa (point : Bytes) (application : String)
  /-- A key that a security token holds, with the application it is for. -/
  | tokenEd25519 (point : Bytes) (application : String)
  /-- A key of an algorithm that some domain defines, as one string. -/
  | foreign (algorithm : String) (body : Bytes)
deriving DecidableEq

namespace Material

/-- The name of the algorithm. -/
def algorithm : Material → String
  | dsa .. => "ssh-dss"
  | rsa .. => "ssh-rsa"
  | ecdsa curve _ => "ecdsa-sha2-" ++ curveName curve
  | ed25519 _ => "ssh-ed25519"
  | tokenEcdsa .. => "sk-ecdsa-sha2-nistp256@openssh.com"
  | tokenEd25519 .. => "sk-ssh-ed25519@openssh.com"
  | foreign algorithm _ => algorithm

/-- The strings that follow the name in a blob. -/
def fields : Material → List Bytes
  | dsa p q g y => [p, q, g, y]
  | rsa exponent modulus => [exponent, modulus]
  | ecdsa curve point => [Text.utf8 (curveName curve), point]
  | ed25519 point => [point]
  | tokenEcdsa point application =>
    [Text.utf8 (curveName .p256), point, Text.utf8 application]
  | tokenEd25519 point application => [point, Text.utf8 application]
  | foreign _ body => [body]

/-- Whether these bytes have the form of a point: a tag that tells whether one coordinate follows or
both. -/
def isPoint (curve : Curve) : Bytes → Bool
  | 2 :: rest => rest.length = curve.width
  | 3 :: rest => rest.length = curve.width
  | 4 :: rest => rest.length = 2 * curve.width
  | _ => false

/-- Whether a token's key can hold this point, which may also be neutral, or a coordinate alone. -/
def isTokenPoint : Bytes → Bool
  | [0] => true
  | 5 :: rest => rest.length = Curve.width .p256
  | bytes => isPoint .p256 bytes

/-- Takes a point on the named curve. -/
def point (curve : Curve) (valid : Bytes → Bool) : Wire.Reader Bytes := do
  Wire.expect (curveName curve)
  let bytes ← Wire.string
  if valid bytes then return bytes else failure

/-- Whether a name is that of an algorithm that some domain defines: `name@domain` in ASCII. -/
def isForeign (name : String) : Bool :=
  let cs := name.toList
  let before := cs.takeWhile (· ≠ '@')
  let after := cs.drop (before.length + 1)
  cs.all (·.toNat < 128) && !before.isEmpty && !after.isEmpty && !after.contains '@'

/-- Reads what follows the name of the algorithm in a blob. The names that RSA signatures go by
stand for the key as well. -/
def body (name : String) : Wire.Reader Material := do
  match name with
  | "ssh-dss" =>
    return dsa (← Wire.integer) (← Wire.integer) (← Wire.integer) (← Wire.integer)
  | "ssh-rsa" | "rsa-sha2-256" | "rsa-sha2-512" => return rsa (← Wire.integer) (← Wire.integer)
  | "ecdsa-sha2-nistp256" => return ecdsa .p256 (← point .p256 (isPoint .p256))
  | "ecdsa-sha2-nistp384" => return ecdsa .p384 (← point .p384 (isPoint .p384))
  | "ecdsa-sha2-nistp521" => return ecdsa .p521 (← point .p521 (isPoint .p521))
  | "ssh-ed25519" => return ed25519 (← Wire.fixed 32)
  | "sk-ecdsa-sha2-nistp256@openssh.com" =>
    return tokenEcdsa (← point .p256 isTokenPoint) (← Wire.text)
  | "sk-ssh-ed25519@openssh.com" => return tokenEd25519 (← Wire.fixed 32) (← Wire.text)
  | _ => if isForeign name then return foreign name (← Wire.string) else failure

/-- Reads a blob. -/
def read : Wire.Reader Material := do
  body (← Wire.name)

/-- Writes the strings of a blob, the name of the algorithm first. -/
def blob (m : Material) : Bytes :=
  (Text.utf8 m.algorithm :: m.fields).flatMap Wire.write

end Material

/-- A public key with a comment. -/
structure PublicKey where
  material : Material
  comment : String := ""
deriving DecidableEq

namespace PublicKey

/-- The bytes of the key, without its comment. -/
def blob (k : PublicKey) : Bytes :=
  k.material.blob

/-- The name of the algorithm, with which the blob starts. -/
def algorithm (k : PublicKey) : String :=
  k.material.algorithm

/-- The public key of an Ed25519 point. -/
def ofEd25519 (point : Bytes) : PublicKey :=
  { material := .ed25519 point }

/-! ## Lines -/

/-- The line form. -/
def line (k : PublicKey) : String :=
  k.algorithm ++ " " ++ Base64.encode k.blob ++ (if k.comment = "" then "" else " " ++ k.comment)

/-- The characters that the name of an algorithm and a blob are written with. -/
def isWordChar (c : Char) : Bool :=
  c.isAlphanum || c = '+' || c = '-' || c = '/' || c = '=' || c = '@' || c = '.'

/-- Takes a word and the space after it. -/
def word? (cs : List Char) : Option (List Char × List Char) :=
  let word := cs.takeWhile isWordChar
  match cs.drop word.length with
  | [] => some (word, [])
  | ' ' :: rest => some (word, rest)
  | _ => none

/-- Reads the line form. The name has to be the one that the key's own line would have, and the blob
may not end in an empty string. -/
def ofLine? (text : String) : Option PublicKey := do
  let cs := (Text.trimStart text.toList.reverse).reverse
  let (name, cs) ← word? cs
  let (digits, cs) ← word? cs
  if name.isEmpty ∨ digits.isEmpty then none
  else
    let material ← Wire.whole? Material.read (← Base64.decodeChars? digits)
    if material.algorithm = String.ofList name ∧ material.fields.getLast? ≠ some [] then
      some { material, comment := String.ofList cs }
    else none

/-- The words of a text: what white space separates. -/
def words (cs : List Char) : List (List Char) :=
  (cs.foldr (fun c words =>
    if Text.isBlank c then [] :: words
    else match words with
      | word :: more => (c :: word) :: more
      | [] => [[c]]) [[]]).filter fun word => !word.isEmpty

/-- The text by which the key is looked up: the first two words of its line. -/
def authorizedKey (k : PublicKey) : String :=
  " ".intercalate (((words k.line.toList).take 2).map String.ofList)

end PublicKey

end Gatehouse.Key
