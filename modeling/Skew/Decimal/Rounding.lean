import Skew.Decimal.Binary

/-!
# Rounding to floats

The 64-bit float nearest to a quotient of natural numbers, found by exact integer
arithmetic. The quotient is rounded to 53 binary digits, or to fewer where the last
of them would lie below the last place of the smallest float. Ties go to the even
neighbour.
-/

namespace Skew.Decimal

/-- The whole number nearest to `n / d`, ties to even. -/
def roundDiv (n d : Nat) : Nat :=
  if 2 * (n % d) < d ∨ 2 * (n % d) = d ∧ n / d % 2 = 0 then n / d else n / d + 1

/-- The exponent of the smallest float. -/
def leastExponent : Int := -1074

/-- The numbers above and below the line of `n / d` over `2 ^ q`. -/
def overPower (n d : Nat) (q : Int) : Nat × Nat := (shiftBinary n (-q), shiftBinary d q)

/-- The place of the 53rd binary digit of `n / d`. The lengths of the two numbers give
it up to one. -/
def lastPlace (n d : Nat) : Int :=
  let q : Int := (n.log2 : Int) - d.log2 - 52
  let (a, b) := overPower n d q
  max leastExponent (if a / b < leadingBit then q - 1 else q)

/-- The float nearest to `n / d`, where `d` is positive: infinity where that is closer
than every float. -/
def nearestRatio (n d : Nat) : Float :=
  if n = 0 then Float.ofBits 0
  else
    let q := lastPlace n d
    let (a, b) := overPower n d q
    let bits := (q - leastExponent).toNat * leadingBit + roundDiv a b
    Float.ofBits (UInt64.ofNat (min bits (0x7FF * leadingBit)))

/-- The float nearest to `m * 10 ^ e`. Powers far outside the range of floats are
decided by the size of the number alone. -/
def nearest (m : Nat) (e : Int) : Float :=
  let lead := ((Nat.toDigits 10 m).length : Int) + e
  if m = 0 ∨ lead < -400 then nearestRatio 0 1
  else if 400 < lead then nearestRatio (shiftBinary 1 1024) 1
  else nearestRatio (shiftDecimal m e) (shiftDecimal 1 (-e))

end Skew.Decimal
