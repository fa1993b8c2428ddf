import Gatehouse.Bytes

/-!
# Tagged elements

The distinguished encoding of nested data: each element is a tag, a length in the fewest bytes, and
that many bytes of content.
-/

namespace Gatehouse.Key.Der

/-- An element with its content unread. -/
structure Element where
  tag : UInt8
  content : Bytes
deriving DecidableEq

/-! ## Tags -/

def integer : UInt8 := 0x02
def bitString : UInt8 := 0x03
def octetString : UInt8 := 0x04
def identifier : UInt8 := 0x06
def sequence : UInt8 := 0x30

/-- The tag of a simple element that the structure around it numbers. -/
def numbered (n : UInt8) : UInt8 := 0x80 + n

/-- The tag of an element around another one that the structure around it numbers. -/
def wrapped (n : UInt8) : UInt8 := 0xA0 + n

/-- The tags of the universal types. -/
def universalTags : List UInt8 :=
  [0x01, 0x02, 0x03, 0x04, 0x05, 0x06, 0x09, 0x0A, 0x0C, 0x12, 0x13, 0x14, 0x15, 0x16, 0x17, 0x18,
    0x1A, 0x1E, 0x30, 0x31]

/-- Whether a tag is known: that of a universal type, or a numbered one. -/
def isTag (tag : UInt8) : Bool :=
  universalTags.contains tag || (0x40 ≤ tag && tag % 0x40 ≠ 0x3F)

namespace Element

/-- Whether the element is numbered by the structure around it. -/
def isNumbered (e : Element) : Bool :=
  0x80 ≤ e.tag && e.tag < 0xC0

/-- The number of a numbered element. -/
def number (e : Element) : UInt8 :=
  e.tag % 0x20

end Element

/-! ## Reading -/

/-- Takes a length. -/
def length? : Bytes → Option (Nat × Bytes)
  | [] => none
  | lead :: rest =>
    if lead < 0x80 then some (lead.toNat, rest)
    else
      let width := lead.toNat - 0x80
      let n := Bytes.ofBigEndian (rest.take width)
      if 1 ≤ width ∧ width ≤ 4 ∧ width ≤ rest.length ∧ 0x80 ≤ n ∧ 1 <<< (8 * (width - 1)) ≤ n then
        some (n, rest.drop width)
      else none

/-- Takes an element. -/
def element? : Bytes → Option (Element × Bytes)
  | [] => none
  | tag :: rest =>
    match length? rest with
    | some (n, rest) =>
      if isTag tag ∧ n ≤ rest.length then some (⟨tag, rest.take n⟩, rest.drop n) else none
    | none => none

theorem length_of_length? {bytes rest : Bytes} {n : Nat} (h : length? bytes = some (n, rest)) :
    rest.length ≤ bytes.length := by
  cases bytes with
  | nil => simp [length?] at h
  | cons lead tail =>
    simp only [length?] at h
    split at h
    next => simp_all
    next =>
      split at h
      next =>
        obtain ⟨-, rfl⟩ := Prod.mk.inj (Option.some.inj h)
        simp only [List.length_drop, List.length_cons]
        omega
      next => cases h

theorem length_of_element? {bytes rest : Bytes} {e : Element}
    (h : element? bytes = some (e, rest)) : rest.length < bytes.length := by
  cases bytes with
  | nil => simp [element?] at h
  | cons tag tail =>
    simp only [element?] at h
    split at h
    next n after hlength =>
      have := length_of_length? hlength
      split at h
      next =>
        obtain ⟨-, rfl⟩ := Prod.mk.inj (Option.some.inj h)
        simp only [List.length_drop, List.length_cons]
        omega
      next => cases h
    next => cases h

/-- Reads elements up to the end. -/
def elements? (bytes : Bytes) : Option (List Element) :=
  match bytes with
  | [] => some []
  | b :: more =>
    match _taken : element? (b :: more) with
    | some (e, rest) => (elements? rest).map (e :: ·)
    | none => none
termination_by bytes.length
decreasing_by exact length_of_element? _taken

/-- Reads one element and nothing else. -/
def single? (bytes : Bytes) : Option Element :=
  match element? bytes with
  | some (e, []) => some e
  | _ => none

namespace Element

/-- The elements that a sequence holds. -/
def members? (e : Element) : Option (List Element) :=
  if e.tag = sequence then elements? e.content else none

/-- The bytes of a bit string that ends with its last byte. -/
def bits? (e : Element) : Option Bytes :=
  match e.content with
  | 0 :: bytes => some bytes
  | _ => none

/-- The element that one of this tag is wrapped around. -/
def unwrap? (e : Element) (tag : UInt8) : Option Element :=
  if e.tag = tag then single? e.content else none

/-- Whether the element is numbered and wrapped around another one. -/
def isWrapper (e : Element) : Bool :=
  e.isNumbered && 0x20 ≤ e.tag % 0x40 && (single? e.content).isSome

end Element

/-- Passes over the elements of lower numbers, and takes the one of this number if it comes next. -/
def takeNumbered (n : UInt8) (es : List Element) : Option Element × List Element :=
  match es.dropWhile fun e => e.isNumbered && e.number < n with
  | e :: rest => if e.isNumbered ∧ e.number = n then (some e, rest) else (none, e :: rest)
  | [] => (none, [])

end Gatehouse.Key.Der
