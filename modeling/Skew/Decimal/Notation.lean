import Skew.Decimal.Shortest

/-!
# Decimal notation of floats

A notation is the list of decisions that turn a float's shortest digits into
text: where positional writing ends, whether a whole number keeps a point, whether an
exponent shows its plus sign, which way ties go. Every text that shows a float names its
notation.
-/

namespace Skew.Decimal

structure Notation where
  /-- numbers whose leading digit has an exponent from `plainFrom` up to, not
  including, `plainBelow` are written positionally -/
  plainFrom : Int
  plainBelow : Int
  /-- a whole number written positionally ends in `.0` -/
  pointZero : Bool
  /-- an exponent that is not negative has a plus sign -/
  plusSign : Bool
  tie : Tie
deriving Repr

/-- Decimal digits, most significant first; `0` has one digit. -/
def natDigits (n : Nat) : List Char := Nat.toDigits 10 n

def natText (n : Nat) : String := String.ofList (natDigits n)

def intText (n : Int) : String := if n < 0 then "-" ++ natText n.natAbs else natText n.natAbs

namespace Notation

def exponentText (style : Notation) (e : Int) : String :=
  if style.plusSign ∧ 0 ≤ e then "+" ++ intText e else intText e

/-- Lays out the number `digits * 10 ^ exp`, which is not zero. -/
def layout (style : Notation) (d : Dec) : List Char :=
  let ds := natDigits d.digits
  let len : Int := ds.length
  let lead := len + d.exp - 1
  if style.plainFrom ≤ lead ∧ lead < style.plainBelow then
    if 0 ≤ d.exp then
      ds ++ List.replicate d.exp.toNat '0' ++ (if style.pointZero then ['.', '0'] else [])
    else if 0 ≤ lead then
      ds.take (lead + 1).toNat ++ '.' :: ds.drop (lead + 1).toNat
    else
      '0' :: '.' :: List.replicate (-lead - 1).toNat '0' ++ ds
  else
    ds.take 1 ++ (if ds.length = 1 then [] else '.' :: ds.drop 1)
      ++ 'e' :: (style.exponentText lead).toList

def text (style : Notation) (x : Float) : String :=
  match Binary.ofFloat? x with
  | none => if x.isNaN then "NaN" else if x < 0 then "-inf" else "inf"
  | some b =>
    let body := if b.m = 0 then '0' :: (if style.pointZero then ['.', '0'] else [])
      else style.layout (b.shortest style.tie)
    String.ofList (if b.negative then '-' :: body else body)

end Notation

/-- Always positional, whole numbers without a point: the notation of amounts in
texts and messages. -/
def plain : Notation := ⟨-400, 400, false, false, .awayFromZero⟩

end Skew.Decimal
