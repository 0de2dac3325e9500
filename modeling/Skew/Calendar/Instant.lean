import Skew.Calendar.Date
import Skew.Decimal.Notation
import Skew.Decimal.Reading

/-!
# Instants

A moment in UTC: whole seconds since 1970-01-01T00:00:00Z and nanoseconds. A
leap second is the second before it with a thousand million nanoseconds more, so
it is written with 60 seconds.

The wire text of an instant drops the nanoseconds. Reading takes the usual
internet form with a numeric offset, and a local form without offset that is
taken as UTC.
-/

namespace Skew.Calendar

open Skew.Decimal (isDigit digitValue ofDigits natText natDigits)

structure Instant where
  seconds : Int
  nanos : Nat
deriving DecidableEq, Repr

/-- The number of 1970-01-01. -/
def epochDay : Int := 719162

/-- The years an instant may lie in. -/
def minYear : Int := -262143
def maxYear : Int := 262142

namespace Instant

def date (t : Instant) : Date := Date.ofDay (t.seconds / 86400 + epochDay)

def secondOfDay (t : Instant) : Nat := (t.seconds % 86400).toNat

def isLeapSecond (t : Instant) : Bool := 1000000000 ≤ t.nanos

/-- The nanoseconds are dropped; a leap second stays one. -/
def wholeSecond (t : Instant) : Instant :=
  ⟨t.seconds, if t.isLeapSecond then 1000000000 else 0⟩

end Instant

/-! ## Writing -/

def padded (width n : Nat) : String :=
  let ds := natDigits n
  String.ofList (List.replicate (width - ds.length) '0' ++ ds)

/-- Four digits; a year outside 0 to 9999 has a sign. -/
def yearText (y : Int) : String :=
  if 0 ≤ y ∧ y ≤ 9999 then padded 4 y.toNat
  else (if y < 0 then "-" else "+") ++ padded 4 y.natAbs

def Date.text (d : Date) : String :=
  yearText d.year ++ "-" ++ padded 2 d.month ++ "-" ++ padded 2 d.day

namespace Instant

def clockText (t : Instant) : String :=
  let s := t.secondOfDay
  padded 2 (s / 3600) ++ ":" ++ padded 2 (s / 60 % 60) ++ ":"
    ++ padded 2 (s % 60 + if t.isLeapSecond then 1 else 0)

/-- The wire form, `1955-11-05T00:00:00Z`. -/
def wireText (t : Instant) : String := t.date.text ++ "T" ++ t.clockText ++ "Z"

/-- The nanoseconds in groups of three digits, as few as show them. -/
def fractionText (t : Instant) : String :=
  let n := t.nanos % 1000000000
  if n = 0 then ""
  else if n % 1000000 = 0 then "." ++ padded 3 (n / 1000000)
  else if n % 1000 = 0 then "." ++ padded 6 (n / 1000)
  else "." ++ padded 9 n

/-- The form that shows everything. -/
def fullText (t : Instant) : String := t.date.text ++ "T" ++ t.clockText ++ t.fractionText ++ "Z"

end Instant

/-! ## Reading -/

/-- Reads from `least` to `most` digits, as many as there are. -/
def readDigits? (least most : Nat) (s : List Char) : Option (Nat × List Char) :=
  let ds := (s.take most).takeWhile isDigit
  if ds.length < least then none else some (ofDigits 0 ds, s.drop ds.length)

def readChar? (c : Char) : List Char → Option (List Char)
  | d :: s => if d = c then some s else none
  | [] => none

/-- A fraction of a second: digits, of which the first nine count. -/
def readFraction? : List Char → Option (Nat × List Char)
  | '.' :: s =>
    let (ds, rest) := (s.takeWhile isDigit, s.dropWhile isDigit)
    let kept := ds.take 9
    if ds.isEmpty then none
    else some (Decimal.shiftDecimal (ofDigits 0 kept) (9 - kept.length : Nat), rest)
  | s => some (0, s)

/-- The instant of a date and a time of day, `offset` seconds east of UTC. A
sixtieth second is a leap second. -/
def Instant.ofParts? (d : Date) (hour minute second nanos : Nat) (offset : Int) : Option Instant :=
  if d.Valid ∧ minYear ≤ d.year ∧ d.year ≤ maxYear ∧ hour ≤ 23 ∧ minute ≤ 59 ∧ second ≤ 60 then
    let leap := second = 60
    let ofDay : Int := hour * 3600 + minute * 60 + (if leap then 59 else second)
    some ⟨(d.toDay - epochDay) * 86400 + ofDay - offset, nanos + if leap then 1000000000 else 0⟩
  else none

/-- An offset from UTC in seconds: `Z`, or a sign, hours and minutes up to 23:59.
The sign may be a true minus sign. -/
def readOffset? : List Char → Option (Int × List Char)
  | 'Z' :: s => some (0, s)
  | 'z' :: s => some (0, s)
  | c :: s => do
    let sign : Int ← if c = '+' then some 1 else if c = '-' ∨ c = '\u2212' then some (-1) else none
    let (h, s) ← readDigits? 2 2 s
    let s ← readChar? ':' s
    let (m, s) ← readDigits? 2 2 s
    if h ≤ 23 ∧ m ≤ 59 then some (sign * (h * 3600 + m * 60 : Nat), s) else none
  | [] => none

/-- Fixed widths, `T` or `t` or a space between date and time, an offset at the end. -/
def readOffsetForm? (s : List Char) : Option Instant := do
  let (year, s) ← readDigits? 4 4 s
  let (month, s) ← readDigits? 2 2 (← readChar? '-' s)
  let (day, s) ← readDigits? 2 2 (← readChar? '-' s)
  let s ← readChar? 'T' s <|> readChar? 't' s <|> readChar? ' ' s
  let (hour, s) ← readDigits? 2 2 s
  let (minute, s) ← readDigits? 2 2 (← readChar? ':' s)
  let (second, s) ← readDigits? 2 2 (← readChar? ':' s)
  let (nanos, s) ← readFraction? s
  let (offset, s) ← readOffset? s
  if s.isEmpty then Instant.ofParts? ⟨year, month, day⟩ hour minute second nanos offset else none

/-- A year: four digits at most, or a sign and any number of digits. -/
def readYear? (s : List Char) : Option (Int × List Char) :=
  match Text.trimStart s with
  | '-' :: r => (readDigits? 1 r.length r).map fun (n, r) => (-(n : Int), r)
  | '+' :: r => (readDigits? 1 r.length r).map fun (n, r) => ((n : Int), r)
  | r => (readDigits? 1 4 r).map fun (n, r) => ((n : Int), r)

/-- One or two digits after blanks. -/
def readPair? (s : List Char) : Option (Nat × List Char) := readDigits? 1 2 (Text.trimStart s)

/-- Numbers of free width, blanks allowed before each, `T` between date and time,
no offset. -/
def readLocalForm? (s : List Char) : Option Instant := do
  let (year, s) ← readYear? s
  let (month, s) ← readPair? (← readChar? '-' s)
  let (day, s) ← readPair? (← readChar? '-' s)
  let (hour, s) ← readPair? (← readChar? 'T' s)
  let (minute, s) ← readPair? (← readChar? ':' s)
  let (second, s) ← readPair? (← readChar? ':' s)
  let (nanos, s) ← readFraction? s
  if s.isEmpty then Instant.ofParts? ⟨year, month, day⟩ hour minute second nanos 0 else none

def Instant.read? (s : String) : Option Instant :=
  readOffsetForm? s.toList <|> readLocalForm? s.toList

end Skew.Calendar
