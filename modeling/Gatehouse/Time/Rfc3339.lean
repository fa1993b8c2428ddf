import Gatehouse.Text.Blank
import Gatehouse.Text.Number
import Gatehouse.Time.Instant

/-!
# RFC 3339 times

The text form of instants. Writing is canonical: UTC with `Z`, and a fraction of three, six or nine
digits only where needed. Reading is lenient: white space may stand before every number and
separator, fields may be short, the date and the time may be separated by a space, the fraction may
have any number of digits, and any offset from UTC is accepted and taken off.
-/

namespace Gatehouse.Time.Rfc3339

open Gatehouse.Text

/-! ## Writing -/

/-- The year: four digits from 0 to 9999, with a sign in front outside that range. -/
def yearText (year : Int) : List Char :=
  if 0 ≤ year ∧ year ≤ 9999 then padded 4 year.toNat
  else (if year < 0 then '-' else '+') :: padded 4 year.natAbs

/-- The fraction of a second in the fewest groups of three digits. -/
def fractionText (nano : Nat) : List Char :=
  if nano = 0 then []
  else if nano % 1000000 = 0 then '.' :: padded 3 (nano / 1000000)
  else if nano % 1000 = 0 then '.' :: padded 6 (nano / 1000)
  else '.' :: padded 9 nano

/-- The date and the time to the second; a leap second is written as second 60. -/
def secondsText (t : Instant) : List Char :=
  let leap := if t.nano < 1000000000 then 0 else 1
  yearText t.date.year ++ '-' :: padded 2 t.date.month ++ '-' :: padded 2 t.date.day ++
    'T' :: padded 2 (t.second / 3600) ++ ':' :: padded 2 (t.second / 60 % 60) ++
    ':' :: padded 2 (t.second % 60 + leap)

/-- The full form. -/
def write (t : Instant) : String :=
  String.ofList (secondsText t ++ fractionText (t.nano % 1000000000) ++ ['Z'])

/-- The form without a fraction. -/
def writeSeconds (t : Instant) : String :=
  String.ofList (secondsText t ++ ['Z'])

/-! ## Reading -/

/-- Takes one to `most` digits off the front. -/
def digits? (most : Nat) (cs : List Char) : Option (Nat × List Char) :=
  let run := (cs.take most).takeWhile isDigit
  if run.isEmpty then none else some (digitsValue run, cs.drop run.length)

/-- Takes a number of at most `most` digits off the front, after white space. -/
def number? (most : Nat) (cs : List Char) : Option (Nat × List Char) :=
  digits? most (trimStart cs)

/-- Takes the year: four digits at most, or a sign and any number of digits. -/
def year? (cs : List Char) : Option (Int × List Char) :=
  match trimStart cs with
  | '-' :: rest => (digits? rest.length rest).map fun (n, r) => (-(n : Int), r)
  | '+' :: rest => (digits? rest.length rest).map fun (n, r) => ((n : Int), r)
  | rest => (digits? 4 rest).map fun (n, r) => ((n : Int), r)

/-- Takes one given character, after white space. -/
def literal? (c : Char) (cs : List Char) : Option (List Char) :=
  match trimStart cs with
  | x :: rest => if x = c then some rest else none
  | [] => none

/-- Takes the fraction of a second, in nanoseconds. Digits after the ninth are ignored. -/
def fraction? (cs : List Char) : Option (Nat × List Char) :=
  match cs with
  | '.' :: rest =>
    let run := (rest.take 9).takeWhile isDigit
    if run.isEmpty then none
    else
      some (digitsValue run * Nat.pow 10 (9 - run.length),
        (rest.drop run.length).dropWhile isDigit)
  | _ => some (0, cs)

/-- Takes two digits at the very front. -/
def twoDigits? : List Char → Option (Nat × List Char)
  | a :: b :: rest =>
    if isDigit a && isDigit b then some (10 * digitValue a + digitValue b, rest) else none
  | _ => none

/-- Takes the offset from UTC, in seconds east. -/
def offset? (cs : List Char) : Option (Int × List Char) :=
  match cs with
  | u :: t :: c :: rest =>
    if u.toUpper = 'U' ∧ t.toUpper = 'T' ∧ c.toUpper = 'C' then some (0, rest) else numeric? cs
  | _ => numeric? cs
where
  /-- `Z`, or a sign, hours and minutes. -/
  numeric? (cs : List Char) : Option (Int × List Char) :=
    match cs with
    | [] => none
    | c :: rest =>
      if c = 'Z' ∨ c = 'z' then some (0, rest)
      else if c = '+' then distance? 1 rest
      else if c = '-' ∨ c = '\u2212' then distance? (-1) rest
      else none
  /-- Hours and minutes after the sign. -/
  distance? (sign : Int) (cs : List Char) : Option (Int × List Char) := do
    let (hours, cs) ← twoDigits? cs
    let (minutes, cs) ← twoDigits? (cs.dropWhile fun c => c = ':' || isBlank c)
    if minutes < 60 ∧ hours < 24 then some (sign * (hours * 3600 + minutes * 60 : Nat), cs)
    else none

/-- The instant of a local date and second of the day that lie `offset` seconds east of UTC. -/
def atOffset? (date : Date) (second nano : Nat) (offset : Int) : Option Instant := do
  let utc := (second : Int) - offset
  if utc < 0 then
    Instant.of? (← date.prev?) (utc + 86400).toNat nano
  else if utc < 86400 then
    Instant.of? date utc.toNat nano
  else
    Instant.of? (← date.next?) (utc - 86400).toNat nano

/-- Reads the separator of date and time. -/
def separator? : List Char → Option (List Char)
  | c :: rest => if c = 't' ∨ c = 'T' ∨ c = ' ' then some rest else none
  | [] => none

/-- Reads a text of characters. -/
def readChars? (cs : List Char) : Option Instant := do
  let (year, cs) ← year? cs
  let (month, cs) ← number? 2 (← literal? '-' cs)
  let (day, cs) ← number? 2 (← literal? '-' cs)
  let (hour, cs) ← number? 2 (← separator? cs)
  let (minute, cs) ← number? 2 (← literal? ':' cs)
  let (second, cs) ← number? 2 (← literal? ':' cs)
  let (nano, cs) ← fraction? cs
  let (offset, cs) ← offset? (trimStart cs)
  if !cs.all isBlank then none
  else if 23 < hour ∨ 59 < minute ∨ 60 < second then none
  else
    let date ← Date.of? year month day
    let leap := if second = 60 then 1 else 0
    atOffset? date (hour * 3600 + minute * 60 + second - leap) (nano + leap * 1000000000) offset

/-- Reads a time. -/
def read? (text : String) : Option Instant :=
  readChars? text.toList

end Gatehouse.Time.Rfc3339
