import Gatehouse.Json.Scan
import Gatehouse.Schema
import Gatehouse.Time.Rfc3339

/-!
# Reading JSON by a schema

A record is read from an object, whose members may come in any order and whose unknown members are
passed over, or from an array that lists its fields in order. A member that comes twice is refused,
and so is a missing member without a default.
-/

namespace Gatehouse.Json

/-! ## Values -/

/-- Reads an unsigned number below a limit. -/
def word (limit : Nat) : Reader Nat := do
  match ← peek with
  | none => throw .unfinished
  | some c =>
    if c = '-' ∨ Text.isDigit c then
      match ← number with
      | some n => if n < limit then return n else throw .mismatch
      | none => throw .mismatch
    else refuse

/-- Reads a text with its quotes. -/
def quoted : Reader String := do
  match ← peek with
  | some '"' => advance; text
  | _ => refuse

/-- Reads the items of an array until its end. -/
def items {α : Type} (item : Reader α) : (fuel : Nat) → (first : Bool) → Reader (List α)
  | 0, _ => throw .unfinished
  | fuel + 1, first => do
    match ← peek with
    | none => throw .unfinished
    | some c =>
      if c = ']' then advance; return []
      else if first then
        let x ← item
        return x :: (← items item fuel false)
      else if c = ',' then
        advance
        match ← peek with
        | none => throw .unfinished
        | some d =>
          if d = ']' then throw .malformed
          else
            let x ← item
            return x :: (← items item fuel false)
      else throw .malformed

/-- Reads an array of items. -/
def array {α : Type} (item : Reader α) : Reader (List α) := do
  match ← peek with
  | some '[' => advance; fun cs => items item (cs.length + 1) true cs
  | _ => refuse

/-- The alternative of a name. -/
def alternative (names : List String) (name : String) : Reader (Fin names.length) :=
  match names.finIdxOf? name with
  | some i => return i
  | none => throw .mismatch

/-- Reads one of the named alternatives: its name, or an object whose only member has that name and
is null. -/
def choice (names : List String) : Reader (Fin names.length) := do
  match ← peek with
  | some '"' =>
    advance
    alternative names (← text)
  | some '{' =>
    advance
    let i ← alternative names (← quoted)
    expectColon
    match ← peek with
    | some 'n' => expectChars ['n', 'u', 'l', 'l']
    | _ => refuse
    match ← peek with
    | some '}' => advance; return i
    | some _ => throw .malformed
    | none => throw .unfinished
  | some _ => throw .malformed
  | none => throw .unfinished

/-- Reads a value of a kind. -/
def value : (k : Kind) → Reader k.Val
  | .byte => do return UInt8.ofNat (← word 256)
  | .word32 => do return UInt32.ofNat (← word 0x1_0000_0000)
  | .word64 => do return UInt64.ofNat (← word 0x1_0000_0000_0000_0000)
  | .text => quoted
  | .time => do
    match Time.Rfc3339.read? (← quoted) with
    | some t => return t
    | none => throw .mismatch
  | .list item => array (value item)
  | .optional item => do
    match ← peek with
    | some 'n' => expectChars ['n', 'u', 'l', 'l']; return none
    | _ => return some (← value item)
  | .choice names => choice names

/-! ## Records -/

/-- Reads the value of the member called `name` into its field. Gives nothing if no field has that
name. A field that has a value already refuses another one. -/
def member (name : String) : (fs : List Field) → Partial fs → Option (Reader (Partial fs))
  | [], _ => none
  | f :: fs, (old, rest) =>
    if f.name = name then
      some <| match old with
        | some _ => throw .mismatch
        | none => do
          expectColon
          let x ← value f.kind
          return (some x, rest)
    else (member name fs rest).map fun read => do return (old, ← read)

/-- Reads the members of an object until its closing brace comes next. -/
def members (fs : List Field) : (fuel : Nat) → (first : Bool) → Partial fs → Reader (Partial fs)
  | 0, _, _ => throw .unfinished
  | fuel + 1, first, known => do
    match ← peek with
    | none => throw .unfinished
    | some c =>
      if c = '}' then return known
      else
        if !first then
          if c = ',' then advance else throw .malformed
        match ← peek with
        | none => throw .unfinished
        | some q =>
          if q ≠ '"' then throw .malformed
          else
            advance
            let name ← text
            let known ← match member name fs known with
              | some read => read
              | none => do
                expectColon
                passValue
                pure known
            members fs fuel false known

/-- Reads the fields from an array, in order. Trailing fields with a default may be missing. -/
def elements : (fs : List Field) → (first : Bool) → Reader (Partial fs)
  | [], _ => return ()
  | f :: fs, first => do
    match ← peek with
    | none => throw .unfinished
    | some c =>
      if c = ']' then
        if f.default.isSome then return (none, ← elements fs first) else throw .mismatch
      else
        if !first then
          if c ≠ ',' then throw .malformed
          advance
          match ← peek with
          | none => throw .unfinished
          | some d => if d = ']' then throw .malformed
        let x ← value f.kind
        return (some x, ← elements fs false)

/-- Reads a record. -/
def row (fs : List Field) : Reader (Row fs) := do
  match ← peek with
  | some '{' =>
    advance
    let known ← fun cs => members fs (cs.length + 1) true (Partial.empty fs) cs
    match Partial.complete? fs known with
    | some r => advance; return r
    | none => throw .mismatch
  | some '[' =>
    advance
    let known ← elements fs true
    match Partial.complete? fs known with
    | none => throw .mismatch
    | some r =>
      match ← peek with
      | some ']' => advance; return r
      | some _ => throw .malformed
      | none => throw .unfinished
  | _ => refuse

/-- Reads a whole document: nothing but blanks may follow. -/
def document {α : Type} (read : Reader α) (chars : List Char) : Except Failure α := do
  let (a, rest) ← read chars
  if rest.all isGap then return a else throw .malformed

/-- Reads a record from a whole document. -/
def parse {α : Type} [Record α] (source : String) : Except Failure α := do
  return Record.ofRow (← document (row (Record.fields α)) source.toList)

/-- Reads a named alternative from a whole document. -/
def parseChoice {α : Type} [Choice α] (source : String) : Except Failure α := do
  return Choice.ofIndex (← document (choice (Choice.names α)) source.toList)

end Gatehouse.Json
