import Gatehouse.Bytes
import Gatehouse.Time.Instant

/-!
# Schemas

What a record consists of: an ordered list of named fields, each of a kind, some with a default.
A kind has a type of values, so a schema has a type of rows, and a reader or writer of some format
is written once, by recursion on kinds and fields, for every record there is.
-/

namespace Gatehouse

/-- The kinds of values that fields hold. -/
inductive Kind where
  | byte
  | word32
  | word64
  | text
  | time
  | list (item : Kind)
  | optional (item : Kind)
  /-- One of finitely many named alternatives. -/
  | choice (names : List String)
deriving DecidableEq

/-- The values of a kind. -/
@[reducible] def Kind.Val : Kind → Type
  | .byte => UInt8
  | .word32 => UInt32
  | .word64 => UInt64
  | .text => String
  | .time => Time.Instant
  | .list item => List item.Val
  | .optional item => Option item.Val
  | .choice names => Fin names.length

/-- A named field. A field without a default is required. -/
structure Field where
  name : String
  kind : Kind
  default : Option kind.Val := none

/-- One value for each field. -/
@[reducible] def Row : List Field → Type
  | [] => Unit
  | f :: fs => f.kind.Val × Row fs

/-- Values for those fields that have been read so far. -/
@[reducible] def Partial : List Field → Type
  | [] => Unit
  | f :: fs => Option f.kind.Val × Partial fs

namespace Partial

/-- Nothing has been read. -/
def empty : (fs : List Field) → Partial fs
  | [] => ()
  | _ :: fs => (none, empty fs)

/-- The finished row, with the defaults filled in, unless a required field is missing. -/
def complete? : (fs : List Field) → Partial fs → Option (Row fs)
  | [], _ => some ()
  | f :: fs, (value, rest) => do
    let value ← value <|> f.default
    let row ← complete? fs rest
    return (value, row)

/-- Everything has been read. -/
def ofRow : (fs : List Field) → Row fs → Partial fs
  | [], _ => ()
  | _ :: fs, (value, row) => (some value, ofRow fs row)

theorem complete?_ofRow (fs : List Field) (row : Row fs) :
    complete? fs (ofRow fs row) = some row := by
  induction fs with
  | nil => rfl
  | cons f fs ih =>
    obtain ⟨value, row⟩ := row
    simp [ofRow, complete?, ih row]

end Partial

/-- A type whose values are rows of a schema. -/
class Record (α : Type) where
  fields : List Field
  toRow : α → Row fields
  ofRow : Row fields → α
  ofRow_toRow : ∀ a, ofRow (toRow a) = a := by intro a; cases a; rfl

/-- A type of finitely many named alternatives. -/
class Choice (α : Type) where
  names : List String
  toIndex : α → Fin names.length
  ofIndex : Fin names.length → α
  ofIndex_toIndex : ∀ a, ofIndex (toIndex a) = a := by intro a; cases a <;> rfl

end Gatehouse
