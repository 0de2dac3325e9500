import Skew.Calendar.Date
import Skew.Decimal.Reading
import Skew.Text
import Skew.Toml.Document

/-!
# Numbers and dates of configuration documents

A word is the longest run of characters that numbers and dates are made of. Digits
may have single underscores between them; decimal integers have no leading zeros and
fit 64 bits. Dates must exist.
-/

namespace Skew.Toml

open Skew.Decimal (isDigit ofDigits readFloat?)

/-! ## Numbers -/

/-- The digits of a run with single underscores between digits. -/
def digits? (isDigit : Char → Bool) : List Char → Option (List Char)
  | [] => none
  | [c] => if isDigit c then some [c] else none
  | c :: '_' :: s => if isDigit c then (digits? isDigit s).map (c :: ·) else none
  | c :: s => if isDigit c then (digits? isDigit s).map (c :: ·) else none

def isHexDigit (c : Char) : Bool := (Text.hexValue? c).isSome
def isOctDigit (c : Char) : Bool := '0' ≤ c && c ≤ '7'
def isBinDigit (c : Char) : Bool := c = '0' || c = '1'

/-- Decimal digits without a leading zero. -/
def wholeDigits? (s : List Char) : Option (List Char) := do
  let ds ← digits? isDigit s
  if 1 < ds.length ∧ ds.head? = some '0' then none else some ds

def maxInteger : Nat := 0x7FFFFFFFFFFFFFFF

/-- The number of digits in a base fits 64 bits. -/
def fits (base : Nat) (ds : List Char) : Bool :=
  ds.foldl (fun n c => base * n + (Text.hexValue? c).getD 0) 0 ≤ maxInteger

def isInteger (s : List Char) : Bool :=
  match s with
  | '0' :: 'x' :: ds => ((digits? isHexDigit ds).map (fits 16)).getD false
  | '0' :: 'o' :: ds => ((digits? isOctDigit ds).map (fits 8)).getD false
  | '0' :: 'b' :: ds => ((digits? isBinDigit ds).map (fits 2)).getD false
  | s =>
    let (neg, ds) := Decimal.splitSign s
    match wholeDigits? ds with
    | some ds => ofDigits 0 ds ≤ if neg then maxInteger + 1 else maxInteger
    | none => false

def isExponentMark (c : Char) : Bool := c = 'e' || c = 'E'

/-- The part of a number before its exponent: whole digits, perhaps a fraction. -/
def isMantissa (s : List Char) (withPoint : Bool) : Bool :=
  let whole := s.takeWhile (· ≠ '.')
  match s.dropWhile (· ≠ '.') with
  | [] => !withPoint && (wholeDigits? whole).isSome
  | _ :: frac => (wholeDigits? whole).isSome && (digits? isDigit frac).isSome

def isFloat (s : List Char) : Bool :=
  let (_, body) := Decimal.splitSign s
  if body = ['i', 'n', 'f'] || body = ['n', 'a', 'n'] then true
  else
    let mantissa := body.takeWhile (!isExponentMark ·)
    let isShaped := match body.dropWhile (!isExponentMark ·) with
      | [] => isMantissa mantissa true
      | _ :: e => isMantissa mantissa false && (digits? isDigit (Decimal.splitSign e).2).isSome
    isShaped && match readFloat? (s.filter (· ≠ '_')) with
      | some x => !(x == 1.0 / 0.0)
      | none => false

/-! ## Dates and times -/

/-- Exactly `n` digits, and a number no larger than `most`. -/
def readNumber? (n most : Nat) (s : List Char) : Option (Nat × List Char) :=
  let ds := s.take n
  if ds.length = n ∧ ds.all isDigit ∧ ofDigits 0 ds ≤ most then some (ofDigits 0 ds, s.drop n)
  else none

def readMark? (marks : List Char) : List Char → Option (List Char)
  | c :: s => if c ∈ marks then some s else none
  | [] => none

/-- A date that exists. -/
def readDate? (s : List Char) : Option (List Char) := do
  let (year, s) ← readNumber? 4 9999 s
  let (month, s) ← readNumber? 2 12 (← readMark? ['-'] s)
  let (day, s) ← readNumber? 2 31 (← readMark? ['-'] s)
  if (⟨year, month, day⟩ : Calendar.Date).Valid then some s else none

def readTime? (s : List Char) : Option (List Char) := do
  let (_, s) ← readNumber? 2 23 s
  let (_, s) ← readNumber? 2 59 (← readMark? [':'] s)
  let (_, s) ← readNumber? 2 60 (← readMark? [':'] s)
  match s with
  | '.' :: s => if (s.takeWhile isDigit).isEmpty then none else some (s.dropWhile isDigit)
  | s => some s

/-- Nothing, or an offset from universal time that ends the word. -/
def isOffset : List Char → Bool
  | [] => true
  | ['Z'] => true
  | ['z'] => true
  | s =>
    let rest? := do
      let (_, s) ← readNumber? 2 23 (← readMark? ['+', '-'] s)
      let (_, s) ← readNumber? 2 59 (← readMark? [':'] s)
      some s
    rest? = some []

def isDate (s : List Char) : Bool := readDate? s = some []

def isLocalTime (s : List Char) : Bool := readTime? s = some []

/-- A time of day, perhaps with an offset. -/
def isTime (s : List Char) : Bool := ((readTime? s).map isOffset).getD false

def isDatetime (s : List Char) : Bool :=
  match readDate? s with
  | some (c :: s) => (c = 'T' || c = 't') && isTime s
  | _ => false

/-! ## Words -/

def isWordChar (c : Char) : Bool :=
  c.isAlphanum || c = '+' || c = '-' || c = '_' || c = '.' || c = ':'

def scalar? (word : List Char) : Option Value :=
  if word = "true".toList then some (.bool true)
  else if word = "false".toList then some (.bool false)
  else if isInteger word then some .integer
  else if isFloat word then some .float
  else if isDate word || isLocalTime word || isDatetime word then some .datetime
  else none

/-- A number, date or boolean at the start of a text. A date may have its time behind
one blank. -/
def readScalar? (s : List Char) : Option (Value × List Char) :=
  let word := s.takeWhile isWordChar
  match s.dropWhile isWordChar with
  | ' ' :: c :: rest =>
    if isDate word && isDigit c then
      let time := (c :: rest).takeWhile isWordChar
      if isTime time then some (.datetime, (c :: rest).dropWhile isWordChar) else none
    else (scalar? word).map (·, ' ' :: c :: rest)
  | rest => (scalar? word).map (·, rest)

end Skew.Toml
