import Skew.Decimal.Rounding
import Skew.Text

/-!
# Reading numbers

The texts that are accepted as integers and as floats, and the numbers they
denote. An integer is an optional sign and digits; a float has in addition a
point, an exponent, and the words for infinity and not-a-number. Digits are
ASCII digits.
-/

namespace Skew.Decimal

def isDigit (c : Char) : Bool := '0' ≤ c && c ≤ '9'

def digitValue (c : Char) : Nat := c.toNat - 48

/-- The number that a list of digits denotes, continuing from `n`. -/
def ofDigits (n : Nat) (ds : List Char) : Nat := ds.foldl (fun n c => 10 * n + digitValue c) n

/-- The leading digits and what follows them. -/
def spanDigits (s : List Char) : List Char × List Char := (s.takeWhile isDigit, s.dropWhile isDigit)

/-- Splits off a sign; `true` is minus. -/
def splitSign : List Char → Bool × List Char
  | '-' :: s => (true, s)
  | '+' :: s => (false, s)
  | s => (false, s)

/-- An optional sign and at least one digit, nothing else. -/
def readInt? (s : List Char) : Option Int :=
  let (neg, ds) := splitSign s
  if ds.isEmpty || !ds.all isDigit then none
  else some (if neg then -(ofDigits 0 ds : Int) else ofDigits 0 ds)

/-- A 64-bit integer: the text of an integer within range. -/
def readInt64? (s : List Char) : Option Int64 :=
  match readInt? s with
  | some n =>
    if Int64.minValue.toInt ≤ n ∧ n ≤ Int64.maxValue.toInt then some (Int64.ofInt n) else none
  | none => none

/-- An exponent: a mark, an optional sign and at least one digit; nothing is the
exponent zero. -/
def readExponent? : List Char → Option Int
  | [] => some 0
  | c :: s => if c = 'e' ∨ c = 'E' then readInt? s else none

/-- Digits with an optional point, one digit at least, then an optional exponent. -/
def readMagnitude? (s : List Char) : Option Float :=
  let (whole, rest) := spanDigits s
  let (frac, rest) := match rest with
    | '.' :: r => spanDigits r
    | r => ([], r)
  if whole.isEmpty && frac.isEmpty then none
  else do
    let e ← readExponent? rest
    some (nearest (ofDigits 0 (whole ++ frac)) (e - frac.length))

/-- Infinity and not-a-number, in any case of letters. -/
def readWord? (s : List Char) : Option Float :=
  let w := String.ofList (s.map Char.toLower)
  if w = "inf" ∨ w = "infinity" then some (1.0 / 0.0)
  else if w = "nan" then some (0.0 / 0.0)
  else none

def readFloat? (s : List Char) : Option Float :=
  let (neg, body) := splitSign s
  match readMagnitude? body <|> readWord? body with
  | some x => some (if neg then -x else x)
  | none => none

end Skew.Decimal
