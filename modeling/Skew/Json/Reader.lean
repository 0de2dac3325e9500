import Skew.Json.Basic
import Skew.Decimal.Reading
import Skew.Text

/-!
# Reading documents

A document is read by its standard grammar, up to 127 arrays and objects deep.
Of members with the same name the last counts.

An integer that fits 64 bits, signed or unsigned, stays an integer. Every other
number is a float: as many digits as fit 64 bits make a whole number, which is
scaled by one power of ten. That is not always the float nearest to the text,
and a number too large for a float is refused.
-/

namespace Skew.Json

open Skew.Decimal (isDigit digitValue spanDigits ofDigits)

/-! ## Numbers -/

/-- The largest whole number that digits are gathered into. -/
def maxWhole : Nat := 0xFFFFFFFFFFFFFFFF

/-- Gathers digits into `n` while the result fits; also gives the digits left over. -/
def gather (n : Nat) : List Char → Nat × List Char
  | [] => (n, [])
  | c :: cs =>
    if 10 * n + digitValue c ≤ maxWhole then gather (10 * n + digitValue c) cs else (n, c :: cs)

def powerOfTen (n : Nat) : Float := Decimal.nearest 1 n

/-- The product `n * 10 ^ e` in float arithmetic, in two steps where one power is out of
range; `none` if the result is infinite. -/
def scaled? (n : Nat) (e : Int) : Option Float :=
  let f := (UInt64.ofNat n).toFloat
  if n = 0 then some f
  else if 308 < e then none
  else if 0 ≤ e then
    let x := f * powerOfTen e.toNat
    if x.isInf then none else some x
  else if -308 ≤ e then some (f / powerOfTen (-e).toNat)
  else some (f / powerOfTen 308 / powerOfTen (min 308 (-e - 308).toNat))

/-- A fraction: a point and at least one digit. Gives the digits; none at all
if there is no point. -/
def readFraction? : List Char → Option (List Char × List Char)
  | '.' :: s =>
    let (ds, rest) := spanDigits s
    if ds.isEmpty then none else some (ds, rest)
  | s => some ([], s)

/-- An exponent: a mark, an optional sign, and at least one digit. `none` inside
means that there is no mark. -/
def readExponent? : List Char → Option (Option Int × List Char)
  | c :: s =>
    if c = 'e' ∨ c = 'E' then
      let (neg, s) := Decimal.splitSign s
      let (ds, rest) := spanDigits s
      if ds.isEmpty then none
      else some (some (if neg then -(ofDigits 0 ds : Int) else ofDigits 0 ds), rest)
    else some (none, c :: s)
  | [] => some (none, [])

/-- A number without its sign. The integer zero with a minus sign is a float. -/
def readNumber? (negative : Bool) (s : List Char) : Option (Json × List Char) := do
  let (whole, s) := spanDigits s
  if whole.isEmpty ∨ (whole.head? = some '0' ∧ 1 < whole.length) then none
  let (frac, s) ← readFraction? s
  let (exp, s) ← readExponent? s
  let (n, dropped) := gather 0 whole
  let isFloat := negative ∧ (n = 0 ∨ 0x8000000000000000 < n)
  if frac.isEmpty ∧ exp.isNone ∧ dropped.isEmpty ∧ ¬ isFloat then
    some (.int (if negative then -(n : Int) else n), s)
  else
    let (m, unused) := gather n frac
    let kept : Int := frac.length - unused.length
    let x ← scaled? m ((exp.getD 0) + dropped.length - kept)
    some (.float (if negative then -x else x), s)

/-! ## Strings -/

/-- Four hexadecimal digits. -/
def readHex4? : List Char → Option (Nat × List Char)
  | a :: b :: c :: d :: s =>
    if [a, b, c, d].all (fun x => (Text.hexValue? x).isSome) then some (Text.ofHex [a, b, c, d], s)
    else none
  | _ => none

/-- The character of a `\u` escape. Characters beyond the basic plane are two
such escapes, a high and a low surrogate. -/
def readUnicode? (s : List Char) : Option (Char × List Char) := do
  let (n, s) ← readHex4? s
  if 0xDC00 ≤ n ∧ n ≤ 0xDFFF then none
  else if 0xD800 ≤ n ∧ n ≤ 0xDBFF then
    match s with
    | '\\' :: 'u' :: s =>
      let (m, s) ← readHex4? s
      if 0xDC00 ≤ m ∧ m ≤ 0xDFFF then
        some (Char.ofNat (0x10000 + (n - 0xD800) * 1024 + (m - 0xDC00)), s)
      else none
    | _ => none
  else some (Char.ofNat n, s)

/-- The character that an escape stands for, after its backslash. -/
def readEscape? : List Char → Option (Char × List Char)
  | '"' :: s => some ('"', s)
  | '\\' :: s => some ('\\', s)
  | '/' :: s => some ('/', s)
  | 'b' :: s => some ('\x08', s)
  | 'f' :: s => some ('\x0c', s)
  | 'n' :: s => some ('\n', s)
  | 'r' :: s => some ('\r', s)
  | 't' :: s => some ('\t', s)
  | 'u' :: s => readUnicode? s
  | _ => none

/-- The rest of a string behind its opening quote; `seen` is what came before,
backwards. The fuel is the length of the text. -/
def readString? : Nat → List Char → List Char → Option (String × List Char)
  | 0, _, _ => none
  | fuel + 1, seen, s =>
    match s with
    | '"' :: s => some (String.ofList seen.reverse, s)
    | '\\' :: s =>
      match readEscape? s with
      | some (c, s) => readString? fuel (c :: seen) s
      | none => none
    | c :: s => if c.toNat < 32 then none else readString? fuel (c :: seen) s
    | [] => none

/-! ## Values -/

def isGap (c : Char) : Bool := c = ' ' || c = '\n' || c = '\t' || c = '\r'

def skipGaps (s : List Char) : List Char := s.dropWhile isGap

/-- A reader of one value from the start of a text. -/
abbrev ValueReader := List Char → Option (Json × List Char)

/-- Items behind the first, up to the closing bracket. -/
def readItems? (value : ValueReader) : Nat → List Json → List Char → Option (List Json × List Char)
  | 0, _, _ => none
  | fuel + 1, seen, s => do
    let (j, s) ← value (skipGaps s)
    match skipGaps s with
    | ',' :: s => readItems? value fuel (j :: seen) s
    | ']' :: s => some ((j :: seen).reverse, s)
    | _ => none

def readMembers? (value : ValueReader) : Nat → Members → List Char → Option (Members × List Char)
  | 0, _, _ => none
  | fuel + 1, seen, s =>
    match skipGaps s with
    | '"' :: s => do
      let (k, s) ← readString? s.length.succ [] s
      match skipGaps s with
      | ':' :: s =>
        let (j, s) ← value (skipGaps s)
        match skipGaps s with
        | ',' :: s => readMembers? value fuel (Record.insert seen k j) s
        | '}' :: s => some (Record.insert seen k j, s)
        | _ => none
      | _ => none
    | _ => none

def readWord? (word : String) (j : Json) (s : List Char) : Option (Json × List Char) :=
  if word.toList.isPrefixOf s then some (j, s.drop word.length) else none

/-- Reads a value that may hold arrays and objects nested to the given depth. -/
def readValue? : Nat → ValueReader
  | 0, s => readScalar? s
  | depth + 1, s =>
    match s with
    | '[' :: s =>
      match skipGaps s with
      | ']' :: s => some (.arr [], s)
      | s => (readItems? (readValue? depth) s.length.succ [] s).map fun (js, s) => (.arr js, s)
    | '{' :: s =>
      match skipGaps s with
      | '}' :: s => some (.obj [], s)
      | s => (readMembers? (readValue? depth) s.length.succ [] s).map fun (ms, s) => (.obj ms, s)
    | s => readScalar? s
where
  readScalar? : ValueReader
    | '"' :: s => (readString? s.length.succ [] s).map fun (t, s) => (.str t, s)
    | '-' :: s => readNumber? true s
    | 't' :: s => readWord? "rue" (.bool true) s
    | 'f' :: s => readWord? "alse" (.bool false) s
    | 'n' :: s => readWord? "ull" .null s
    | s => readNumber? false s

/-- The deepest nesting that is read. -/
def maxDepth : Nat := 127

/-- The document that a text holds, blanks around it allowed. -/
def read? (s : String) : Option Json := do
  let (j, rest) ← readValue? maxDepth (skipGaps s.toList)
  if (skipGaps rest).isEmpty then some j else none

end Skew.Json
