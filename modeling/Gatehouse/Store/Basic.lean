import Gatehouse.MessagePack.Read
import Gatehouse.MessagePack.Write
import Gatehouse.OsError
import Gatehouse.Records

/-!
# The record store

One table for each type of record. A table maps identifiers to stored forms, in ascending order of
identifiers. What a table holds is bytes: a row that some other program wrote need not decode, and
then the operations that meet it fail. Writing operations give the new store, so a failed one leaves
the old store as it was.
-/

namespace Gatehouse

/-! ## Tables -/

/-- The tables of the store. -/
inductive Table where
  | users
  | userKeys
  | userGroups
  | hostGroups
  | acls
  | hosts
  | sshKeys
  | sessions
deriving DecidableEq, Repr

/-- The rows of a table, in strictly ascending order of identifiers. -/
abbrev Rows := List (Id × Bytes)

namespace Rows

/-- The stored form with an identifier. -/
def get? (rows : Rows) (id : Id) : Option Bytes :=
  rows.lookup id

/-- Puts a stored form in its place, instead of one with the same identifier. -/
def put : Rows → Id → Bytes → Rows
  | [], id, bytes => [(id, bytes)]
  | (key, old) :: rest, id, bytes =>
    if id < key then (id, bytes) :: (key, old) :: rest
    else if id = key then (id, bytes) :: rest
    else (key, old) :: put rest id bytes

/-- The identifier for a new row: one more than the greatest, modulo 2^64, and one in an empty
table. -/
def freshId (rows : Rows) : Id :=
  match rows.getLast? with
  | none => 1
  | some (id, _) => id + 1

end Rows

/-- The record store. -/
structure Store where
  rows : Table → Rows

/-- Why an operation on the store fails. -/
inductive StoreError where
  /-- The file of the store cannot be opened. -/
  | unopened (e : OsError)
  /-- A row does not decode. -/
  | undecodable
  /-- There is no such record. -/
  | notFound (what : String)
  /-- A stored form of so many bytes is too long for the store's file. -/
  | tooLong (length : Nat)
deriving DecidableEq

/-- The wording of a failure. -/
def StoreError.message : StoreError → String
  | .unopened e => "Database error: I/O error: " ++ e.message
  | .undecodable => "Serialization error: malformed record"
  | .notFound what => what ++ " not found"
  | .tooLong length =>
    "Storage error: The value (length=" ++ String.ofList (Text.decimal length) ++
      ") being inserted exceeds the maximum of 3GiB"

namespace Store

/-- A store without any record. -/
def empty : Store := ⟨fun _ => []⟩

/-- The store with a stored form put into a table. -/
def putBytes (s : Store) (t : Table) (id : Id) (bytes : Bytes) : Store :=
  ⟨fun t' => if t' = t then (s.rows t).put id bytes else s.rows t'⟩

/-- The length up to which the store's file takes a stored form: 3 GiB. -/
def valueLimit : Nat := 3 * 1024 * 1024 * 1024

/-- Writes a stored form into a table, if the store's file takes it. -/
def write (s : Store) (t : Table) (id : Id) (bytes : Bytes) : Except StoreError Store :=
  if bytes.length ≤ valueLimit then .ok (s.putBytes t id bytes)
  else .error (.tooLong bytes.length)

/-! ## Reading -/

/-- Decodes a stored form. -/
def decode {α : Type} [Record α] (bytes : Bytes) : Except StoreError α :=
  match MessagePack.decode? bytes with
  | some a => .ok a
  | none => .error .undecodable

/-- The record with an identifier. -/
def get (α : Type) [Record α] (s : Store) (t : Table) (id : Id) :
    Except StoreError (Option α) :=
  match (s.rows t).get? id with
  | none => .ok none
  | some bytes => (decode bytes).map some

/-- The records with these identifiers, in this order. Identifiers of missing records are passed
over. -/
def getMany (α : Type) [Record α] (s : Store) (t : Table) : List Id → Except StoreError (List α)
  | [] => .ok []
  | id :: ids => do
    let found ← s.get α t id
    let more ← getMany α s t ids
    return found.toList ++ more

/-- The first record of some rows that fulfils a condition. Rows are decoded up to that one. -/
def findIn {α : Type} [Record α] (condition : α → Bool) : Rows → Except StoreError (Option α)
  | [] => .ok none
  | (_, bytes) :: rest => do
    let a ← decode bytes
    if condition a then return some a else findIn condition rest

/-- The first record of a table that fulfils a condition. -/
def find {α : Type} [Record α] (s : Store) (t : Table) (condition : α → Bool) :
    Except StoreError (Option α) :=
  findIn condition (s.rows t)

/-- The records of a table that decode. -/
def readable (α : Type) [Record α] (s : Store) (t : Table) : List α :=
  (s.rows t).filterMap fun (_, bytes) => (decode bytes).toOption

/-! ## Writing -/

/-- A record that carries its own identifier. -/
class Identified (α : Type) extends Record α where
  id : α → Id
  withId : α → Id → α

instance : Identified User where
  id u := u.id
  withId u id := { u with id }

instance : Identified UserKey where
  id k := k.id
  withId k id := { k with id }

instance : Identified Group where
  id g := g.id
  withId g id := { g with id }

instance : Identified Acl where
  id a := a.id
  withId a id := { a with id }

instance : Identified Host where
  id h := h.id
  withId h id := { h with id }

instance : Identified SshKey where
  id k := k.id
  withId k id := { k with id }

instance : Identified Session where
  id s := s.id
  withId s id := { s with id }

/-- Inserts a record or replaces the one with its identifier. A record with identifier zero gets a
fresh one. -/
def put {α : Type} [Identified α] (s : Store) (t : Table) (a : α) :
    Except StoreError (Store × α) := do
  let a := if Identified.id a = 0 then Identified.withId a (s.rows t).freshId else a
  return (← s.write t (Identified.id a) (MessagePack.encode a), a)

/-- Changes one record, if it exists. -/
def modify {α : Type} [Record α] (s : Store) (t : Table) (id : Id) (change : α → α) :
    Except StoreError (Option Store) := do
  match ← s.get α t id with
  | none => return none
  | some a => return some (← s.write t id (MessagePack.encode (change a)))

end Store

end Gatehouse
