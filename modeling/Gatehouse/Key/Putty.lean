import Gatehouse.Base64
import Gatehouse.Crypto.Hmac
import Gatehouse.Crypto.Sha1
import Gatehouse.Crypto.Sha256
import Gatehouse.Key.Secret
import Gatehouse.Text.Lines
import Gatehouse.Text.Number

/-!
# PuTTY key files

Lines that name their value, among them the public half and the secret as Base64 lines, and a
checksum over all of it. Versions 2 and 3 are read, without a passphrase.
-/

namespace Gatehouse.Key.Putty

/-- What starts a key file, before the version. -/
def opening : List Char := "PuTTY-User-Key-File-".toList

/-- The versions, which differ in their checksum. -/
inductive Version where
  | two
  | three
deriving DecidableEq, Repr

namespace Version

/-- The version of a number. -/
def of? : List Char → Option Version
  | ['2'] => some two
  | ['3'] => some three
  | _ => none

/-- The checksum of a message. -/
def checksum : Version → Bytes → Bytes
  | two => Crypto.hmac Crypto.Sha1.digest
    (Crypto.Sha1.digest (Text.utf8 "putty-private-key-file-mac-key"))
  | three => Crypto.hmac Crypto.Sha256.digest []

end Version

/-- The names of values. -/
inductive Label where
  | encryption
  | comment
  | publicLines
  | privateLines
  | checksum
  /-- How a passphrase becomes a cipher key. -/
  | derivation
deriving DecidableEq, Repr

/-- The label that is written so. -/
def Label.of? (name : List Char) : Option Label :=
  match String.ofList name with
  | "Encryption" => some .encryption
  | "Comment" => some .comment
  | "Public-Lines" => some .publicLines
  | "Private-Lines" => some .privateLines
  | "Private-MAC" => some .checksum
  | "Key-Derivation" | "Argon2-Memory" | "Argon2-Passes" | "Argon2-Parallelism" | "Argon2-Salt" =>
    some .derivation
  | _ => none

/-- A value with the lines that belong to it. -/
structure Entry where
  label : Label
  value : List Char
  block : List (List Char) := []

/-- What separates a name from its value. -/
def separator : List Char := [':', ' ']

/-- Splits a line at the first separator. -/
def splitLine? : List Char → Option (List Char × List Char)
  | [] => none
  | c :: rest =>
    if separator.isPrefixOf (c :: rest) then some ([], rest.drop 1)
    else (splitLine? rest).map fun (name, value) => (c :: name, value)

/-- The largest number of lines. -/
def countLimit : Nat := 0xFFFF_FFFF_FFFF_FFFF

/-- Reads the entries. -/
def entries? (lines : List (List Char)) : Option (List Entry) :=
  match lines with
  | [] => some []
  | line :: more => do
    let (name, value) ← splitLine? line
    let label ← Label.of? name
    let count ← match label with
      | .publicLines | .privateLines => Text.bounded? countLimit value
      | _ => some 0
    if more.length < count then none
    else
      let rest ← entries? (more.drop count)
      some (⟨label, value, more.take count⟩ :: rest)
termination_by lines.length
decreasing_by simp only [List.length_drop, List.length_cons]; omega

/-- The last entry of a label. -/
def find? (label : Label) (entries : List Entry) : Option Entry :=
  entries.reverse.find? (·.label = label)

/-- Takes the secret that belongs to a public key, as wide as the key says. -/
def secret : Material → Wire.Reader Secret
  | .ed25519 _ => do
    let seed ← Wire.string
    if seed.length = 32 then return .seed seed else failure
  | .ecdsa curve _ => do
    let digits := (← Wire.integer).dropWhile (· = 0)
    if digits.length ≤ curve.width then
      return .scalar (List.replicate (curve.width - digits.length) 0 ++ digits)
    else failure
  | .rsa .. => do
    return .numbers (← [(), (), (), ()].mapM fun _ => Wire.integer)
  | .dsa .. => do
    return .numbers [← Wire.integer]
  | _ => failure

/-- Reads a key file. -/
def read (text : List Char) : Option PrivateKey := do
  match Text.lines text with
  | header :: rest =>
    if opening.isPrefixOf header then
      let (number, name) ← splitLine? (header.drop opening.length)
      let version ← Version.of? number
      let entries ← entries? rest
      let encryption := (find? .encryption entries).map (·.value)
      let comment := String.ofList ((find? .comment entries).elim [] (·.value))
      let content (label : Label) : Option Bytes := do
        Base64.decodeChars? (← find? label entries).block.flatten
      let publicBytes ← content .publicLines
      let privateBytes ← content .privateLines
      let checksum ← Bytes.ofHexDigits? (← find? .checksum entries).value
      let algorithm := Text.utf8 (String.ofList name)
      let message := [algorithm, Text.utf8 "none", Text.utf8 comment, publicBytes, privateBytes]
      let material ← Wire.whole? Material.read publicBytes
      let (secret, _) ← secret material privateBytes
      if encryption.all (· = "none".toList) ∧ material.algorithm = String.ofList name ∧
          checksum = version.checksum (message.flatMap Wire.write) then
        some ⟨{ material, comment }, secret⟩
      else none
    else none
  | [] => none

end Gatehouse.Key.Putty
