import Gatehouse.Text.Blank
import Gatehouse.Text.Number

/-!
# Host addresses

A host's address is a name with an optional port. An IPv6 address has to stand in brackets to carry
a port; without brackets, an address with several colons is a bare IPv6 address. The text around
the address may be white space.
-/

namespace Gatehouse.Dial

/-- Where to dial. -/
structure Address where
  host : String
  port : UInt16
deriving DecidableEq, Repr

/-- The port where none is given. -/
def defaultPort : UInt16 := 22

/-- Reads a port number. -/
def port? (cs : List Char) : Option UInt16 :=
  (Text.bounded? 65535 cs).map UInt16.ofNat

/-- Splits at the first occurrence of a character, which belongs to neither part. -/
def splitFirst (c : Char) (cs : List Char) : Option (List Char × List Char) :=
  let before := cs.takeWhile (· ≠ c)
  match cs.drop before.length with
  | [] => none
  | _ :: after => some (before, after)

/-- Reads an address in brackets, without its opening bracket. -/
def bracketed? (cs : List Char) : Option Address := do
  let (host, tail) ← splitFirst ']' cs
  if host.isEmpty then none
  else match tail with
    | [] => some ⟨String.ofList host, defaultPort⟩
    | ':' :: digits => return ⟨String.ofList host, ← port? digits⟩
    | _ => none

/-- Reads an address without white space around it. -/
def addressChars? (cs : List Char) : Option Address :=
  match cs with
  | [] => none
  | '[' :: rest => bracketed? rest
  | _ =>
    match splitFirst ':' cs with
    | some (host, digits) =>
      if ':' ∈ digits then some ⟨String.ofList cs, defaultPort⟩
      else if host.isEmpty then none
      else do return ⟨String.ofList host, ← port? digits⟩
    | none => some ⟨String.ofList cs, defaultPort⟩

/-- Reads an address. -/
def Address.parse? (text : String) : Option Address :=
  addressChars? (Text.trimChars text.toList)

end Gatehouse.Dial
