import Gatehouse.Schema
import Gatehouse.Text.Number
import Gatehouse.Time.Rfc3339

/-!
# Writing JSON

The compact form of records: no blanks, the members in the order of the schema, and in texts only
quotes, backslashes and control characters below the space escaped.
-/

namespace Gatehouse.Json

open Gatehouse.Text

/-- The writing of one character of a text. -/
def escapeChar (c : Char) : List Char :=
  if c = '"' then ['\\', '"']
  else if c = '\\' then ['\\', '\\']
  else if c = '\x08' then ['\\', 'b']
  else if c = '\x0c' then ['\\', 'f']
  else if c = '\n' then ['\\', 'n']
  else if c = '\r' then ['\\', 'r']
  else if c = '\t' then ['\\', 't']
  else if c < ' ' then
    ['\\', 'u', '0', '0', Bytes.hexDigit (c.toNat / 16), Bytes.hexDigit (c.toNat % 16)]
  else [c]

/-- A text between quotes. -/
def writeText (s : String) : List Char :=
  '"' :: s.toList.flatMap escapeChar ++ ['"']

/-- Parts with commas between them. -/
def separated : List (List Char) → List Char
  | [] => []
  | [part] => part
  | part :: more => part ++ ',' :: separated more

/-- A value of a kind. -/
def writeValue : (k : Kind) → k.Val → List Char
  | .byte, n => decimal (UInt8.toNat n)
  | .word32, n => decimal (UInt32.toNat n)
  | .word64, n => decimal (UInt64.toNat n)
  | .text, s => writeText s
  | .time, t => writeText (Time.Rfc3339.write t)
  | .list item, xs => '[' :: separated ((xs : List item.Val).map (writeValue item)) ++ [']']
  | .optional item, x =>
    match (x : Option item.Val) with
    | none => ['n', 'u', 'l', 'l']
    | some x => writeValue item x
  | .choice names, i => writeText (names.get i)

/-- The members of a record, each with its name. -/
def writeMembers : (fs : List Field) → Row fs → List (List Char)
  | [], _ => []
  | f :: fs, (x, row) => (writeText f.name ++ ':' :: writeValue f.kind x) :: writeMembers fs row

/-- A row as an object. -/
def writeRow (fs : List Field) (row : Row fs) : List Char :=
  '\x7b' :: separated (writeMembers fs row) ++ ['\x7d']

/-- The text of a record. -/
def render {α : Type} [Record α] (a : α) : String :=
  String.ofList (writeRow (Record.fields α) (Record.toRow a))

/-- The text of a named alternative. -/
def renderChoice {α : Type} [Choice α] (a : α) : String :=
  String.ofList (writeText ((Choice.names α).get (Choice.toIndex a)))

end Gatehouse.Json
