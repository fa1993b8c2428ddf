import Gatehouse.Bytes
import Gatehouse.Text.Number

/-!
# Scanning JSON

The lexical layer of the JSON reader: blanks, literals, texts, numbers, and the passing over of a
value that nobody wants. A document is read once from front to back, and the first problem met
decides which of three failures is reported.
-/

namespace Gatehouse.Json

open Gatehouse.Text

/-- Why a document is refused. -/
inductive Failure where
  /-- It is not JSON. -/
  | malformed
  /-- It is JSON, but not of the wanted form. -/
  | mismatch
  /-- It ends too early. -/
  | unfinished
deriving DecidableEq, Repr

/-- The name under which a failure is reported. -/
def Failure.category : Failure → String
  | .malformed => "Syntax"
  | .mismatch => "Data"
  | .unfinished => "Eof"

/-- A reader consumes the front of a document. -/
abbrev Reader (α : Type) := StateT (List Char) (Except Failure) α

/-! ## Blanks and literals -/

/-- The four characters that may stand between tokens. -/
def isGap (c : Char) : Bool :=
  c = ' ' || c = '\n' || c = '\t' || c = '\r'

/-- Passes over blanks and shows the next character. -/
def peek : Reader (Option Char) := fun cs =>
  let rest := cs.dropWhile isGap
  .ok (rest.head?, rest)

/-- Passes over one character. -/
def advance : Reader Unit := fun cs => .ok ((), cs.drop 1)

/-- Passes over the given characters, which have to come next. -/
def expectChars : List Char → Reader Unit
  | [] => pure ()
  | c :: more => fun cs =>
    match cs with
    | [] => .error .unfinished
    | x :: rest => if x = c then expectChars more rest else .error .malformed

/-- Passes over the colon between a member's name and its value. -/
def expectColon : Reader Unit := do
  match ← peek with
  | some ':' => advance
  | some _ => throw .malformed
  | none => throw .unfinished

/-! ## Texts -/

/-- The value of four hexadecimal digits at the front. Fewer than four bytes left over mean that
the document ends too early. -/
def hexQuad (cs : List Char) : Except Failure Nat :=
  if (cs.take 4).foldl (fun n c => n + c.utf8Size) 0 < 4 then .error .unfinished
  else match (cs.take 4).mapM Bytes.hexValue? with
    | some [a, b, c, d] => .ok (((a * 16 + b) * 16 + c) * 16 + d)
    | _ => .error .malformed

/-- The character written by the digits after `\u`, and how many characters write it. Code points
beyond the first plane are written as two surrogates. -/
def unicodeEscape (cs : List Char) : Except Failure (Char × Nat) := do
  let n ← hexQuad cs
  if 0xDC00 ≤ n ∧ n ≤ 0xDFFF then throw .malformed
  else if n < 0xD800 ∨ 0xDBFF < n then return (Char.ofNat n, 4)
  else
    match cs.drop 4 with
    | [] => throw .unfinished
    | c :: rest =>
      if c ≠ '\\' then throw .malformed
      else match rest with
        | [] => throw .unfinished
        | u :: low =>
          if u ≠ 'u' then throw .malformed
          else
            let m ← hexQuad low
            if 0xDC00 ≤ m ∧ m ≤ 0xDFFF then
              return (Char.ofNat (0x10000 + (n - 0xD800) * 0x400 + (m - 0xDC00)), 10)
            else throw .malformed

/-- The character written by a backslash and one more character. -/
def shortEscape? (c : Char) : Option Char :=
  match c with
  | '"' => some '"'
  | '\\' => some '\\'
  | '/' => some '/'
  | 'b' => some '\x08'
  | 'f' => some '\x0c'
  | 'n' => some '\n'
  | 'r' => some '\r'
  | 't' => some '\t'
  | _ => none

/-- Reads a text whose opening quote has been passed, up to and with its closing quote. -/
def textChars (cs : List Char) : Except Failure (List Char × List Char) :=
  match cs with
  | [] => .error .unfinished
  | c :: rest =>
    if c = '"' then .ok ([], rest)
    else if c = '\\' then
      match rest with
      | [] => .error .unfinished
      | e :: rest =>
        if e = 'u' then do
          let (x, used) ← unicodeEscape rest
          let (xs, rest) ← textChars (rest.drop used)
          return (x :: xs, rest)
        else
          match shortEscape? e with
          | none => .error .malformed
          | some x => do
            let (xs, rest) ← textChars rest
            return (x :: xs, rest)
    else if c < ' ' then .error .malformed
    else do
      let (xs, rest) ← textChars rest
      return (c :: xs, rest)
termination_by cs.length
decreasing_by all_goals (simp only [List.length_drop, List.length_cons]; omega)

/-- Reads a text whose opening quote has been passed. -/
def text : Reader String := fun cs => do
  let (chars, rest) ← textChars cs
  return (String.ofList chars, rest)

/-- Passes over a text. Its escapes need only have the right length and digits. -/
def passTextChars (cs : List Char) : Except Failure (List Char) :=
  match cs with
  | [] => .error .unfinished
  | c :: rest =>
    if c = '"' then .ok rest
    else if c = '\\' then
      match rest with
      | [] => .error .unfinished
      | e :: rest =>
        if e = 'u' then do
          let _ ← hexQuad rest
          passTextChars (rest.drop 4)
        else if (shortEscape? e).isSome then passTextChars rest
        else .error .malformed
    else if c < ' ' then .error .malformed
    else passTextChars rest
termination_by cs.length
decreasing_by all_goals (simp only [List.length_drop, List.length_cons]; omega)

/-- Passes over a text whose opening quote has been passed. -/
def passText : Reader Unit := fun cs => do
  return ((), ← passTextChars cs)

/-! ## Numbers -/

/-- One more than the greatest 64-bit word. -/
def wordLimit : Nat := 0x1_0000_0000_0000_0000

/-- Splits a run of digits where its value would leave 64 bits: the value of the digits before that
point, and how many digits follow. -/
def significand (value : Nat) : List Char → Nat × Nat
  | [] => (value, 0)
  | d :: ds =>
    if 10 * value + digitValue d < wordLimit then significand (10 * value + digitValue d) ds
    else (value, ds.length + 1)

/-- The number of bits of precision of a double. -/
def doubleBits : Nat := 53

/-- The number nearest to `n` that a double can hold; of two, the one with an even last bit. -/
def nearestDouble (n : Nat) : Nat :=
  let unit := 1 <<< (n.log2 + 1 - doubleBits)
  let low := n / unit
  let twice := 2 * (n % unit)
  if twice > unit ∨ (twice = unit ∧ low % 2 = 1) then (low + 1) * unit else low * unit

/-- Whether `significand · 10 ^ exponent` is in the range of double precision, when both factors are
rounded before they are multiplied. -/
def inDoubleRange (significand : Nat) (exponent : Int) : Bool :=
  significand = 0 || exponent ≤ 0 ||
    (exponent ≤ 308 &&
      nearestDouble significand * nearestDouble (Nat.pow 10 exponent.toNat) <
        (1 <<< 1024) - (1 <<< 970))

/-- The exponent part of a number, if there is one. -/
def exponentPart (cs : List Char) : Except Failure (Option Int × List Char) :=
  match cs with
  | e :: rest =>
    if e = 'e' ∨ e = 'E' then
      let (sign, rest) : Int × List Char := match rest with
        | '+' :: rest => (1, rest)
        | '-' :: rest => (-1, rest)
        | _ => (1, rest)
      match rest with
      | [] => .error .unfinished
      | d :: _ =>
        if isDigit d then
          .ok (some (sign * digitsValue (rest.takeWhile isDigit)), rest.dropWhile isDigit)
        else .error .malformed
    else .ok (none, cs)
  | [] => .ok (none, cs)

/-- The fraction digits of a number, if there is a decimal point. -/
def fractionPart (cs : List Char) : Except Failure (Option (List Char) × List Char) :=
  match cs with
  | '.' :: rest =>
    match rest with
    | [] => .error .unfinished
    | d :: _ =>
      if isDigit d then .ok (some (rest.takeWhile isDigit), rest.dropWhile isDigit)
      else .error .malformed
  | _ => .ok (none, cs)

/-- Reads a number. Gives its value if it is written as a natural number of 64 bits, and nothing
for any other number. A number beyond the range of double precision is malformed. -/
def number : Reader (Option Nat) := fun cs => do
  let (negative, cs) := match cs with
    | '-' :: rest => (true, rest)
    | _ => (false, cs)
  let (whole, cs) ← (match cs with
    | [] => .error .unfinished
    | '0' :: rest =>
      if rest.head?.any isDigit then .error .malformed else .ok (['0'], rest)
    | d :: _ =>
      if isDigit d then .ok (cs.takeWhile isDigit, cs.dropWhile isDigit) else .error .malformed :
    Except Failure (List Char × List Char))
  let (value, dropped) := significand 0 whole
  let (fraction, cs) ← fractionPart cs
  let (exponent, cs) ← exponentPart cs
  if fraction.isNone ∧ exponent.isNone ∧ dropped = 0 then
    return (if negative then none else some value, cs)
  else
    let digits := fraction.getD []
    let (value, skipped) := significand value digits
    let scale : Int := dropped - ((digits.length : Int) - skipped) + exponent.getD 0
    if inDoubleRange value scale then return (none, cs) else throw .malformed

/-- Passes over a number whose sign has been passed. Only its form is looked at, and a number that
ends too early is malformed. -/
def passNumber : Reader Unit := fun cs => do
  let cs ← (match cs with
    | '0' :: rest => if rest.head?.any isDigit then .error .malformed else .ok rest
    | d :: _ => if isDigit d then .ok (cs.dropWhile isDigit) else .error .malformed
    | [] => .error .malformed : Except Failure (List Char))
  let cs ← (match fractionPart cs with
    | .error _ => .error .malformed
    | .ok (_, cs) => .ok cs : Except Failure (List Char))
  match exponentPart cs with
  | .error _ => .error .malformed
  | .ok (_, cs) => .ok ((), cs)

/-! ## Unwanted values -/

/-- Refuses the value that comes next because it is of the wrong kind. If that value is itself
malformed, this is what is reported. -/
def refuse {α : Type} : Reader α := do
  match ← peek with
  | none => throw .unfinished
  | some c =>
    if c = 'n' then expectChars ['n', 'u', 'l', 'l']
    else if c = 't' then expectChars ['t', 'r', 'u', 'e']
    else if c = 'f' then expectChars ['f', 'a', 'l', 's', 'e']
    else if c = '-' ∨ isDigit c then let _ ← number
    else if c = '"' then
      advance
      let _ ← text
    else if c = '[' ∨ c = '{' then pure ()
    else throw .malformed
    throw .mismatch

/-- Passes over a value that is neither an array nor an object. Gives the opening bracket of one
that is. -/
def passScalar : Reader (Option Char) := do
  match ← peek with
  | none => throw .unfinished
  | some c =>
    if c = 'n' then expectChars ['n', 'u', 'l', 'l']; return none
    else if c = 't' then expectChars ['t', 'r', 'u', 'e']; return none
    else if c = 'f' then expectChars ['f', 'a', 'l', 's', 'e']; return none
    else if c = '-' then advance; passNumber; return none
    else if isDigit c then passNumber; return none
    else if c = '"' then advance; passText; return none
    else if c = '[' ∨ c = '{' then advance; return some c
    else throw .malformed

/-- Passes over the name of a member and its colon. -/
def passName : Reader Unit := do
  match ← peek with
  | some '"' => advance; passText; expectColon
  | some _ => throw .malformed
  | none => throw .unfinished

/-- Where the passing over of a nested value stands. -/
inductive Pass where
  /-- A value comes next. -/
  | value
  /-- Inside an array or object; after a value a comma may follow. -/
  | inside (comma : Bool)

/-- Passes over a value whose enclosing brackets are `frames`, innermost first. Every second step at
the latest consumes a character. -/
def passNested : (fuel : Nat) → Pass → List Char → Reader Unit
  | 0, _, _ => throw .unfinished
  | fuel + 1, .value, frames => do
    match ← passScalar with
    | some bracket => passNested fuel (.inside false) (bracket :: frames)
    | none => passNested fuel (.inside true) frames
  | _ + 1, .inside _, [] => pure ()
  | fuel + 1, .inside comma, bracket :: frames => do
    match ← peek with
    | none => throw .unfinished
    | some c =>
      if c = ',' ∧ comma then
        advance
        if bracket = '{' then passName
        passNested fuel .value (bracket :: frames)
      else if (c = ']' ∧ bracket = '[') ∨ (c = '}' ∧ bracket = '{') then
        advance
        passNested fuel (.inside true) frames
      else if comma then throw .malformed
      else
        if bracket = '{' then passName
        passNested fuel .value (bracket :: frames)

/-- Passes over any value, however deep. -/
def passValue : Reader Unit := fun cs =>
  passNested (2 * cs.length + 2) .value [] cs

end Gatehouse.Json
