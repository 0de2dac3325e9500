/-!
# Finite floats as exact numbers

A finite 64-bit float is a sign and a natural number times a power of two. Exact
questions about floats (which decimals round to it, what its integer part is)
are asked of that form.
-/

namespace Skew.Decimal

/-! ## Shifts

Multiplication by powers of two and of ten. The exponent is an integer, and a
negative one shifts nothing: a fraction is kept as two shifted numbers, the one above
and the one below the line. -/

/-- The product `n * 2 ^ k`. -/
def shiftBinary (n : Nat) (k : Int) : Nat := n * Nat.pow 2 k.toNat

/-- The product `n * 10 ^ k`. -/
def shiftDecimal (n : Nat) (k : Int) : Nat := n * Nat.pow 10 k.toNat

/-! ## Floats -/

/-- The leading one of the 53 binary digits of a normal float. -/
def leadingBit : Nat := 0x10000000000000

/-- The number `m * 2 ^ q`, with a sign that also tells the two zeros apart. -/
structure Binary where
  negative : Bool
  m : Nat
  q : Int
  /-- the gap to the float below is half the gap to the float above -/
  narrowBelow : Bool
deriving DecidableEq, Repr

namespace Binary

/-- The finite float of the given bits; `none` for the infinities and NaN. -/
def ofBits? (b : UInt64) : Option Binary :=
  let e := ((b >>> 52) &&& 0x7FF).toNat
  let f := (b &&& 0xFFFFFFFFFFFFF).toNat
  let neg := b >>> 63 == 1
  if e = 0x7FF then none
  else if e = 0 then some ⟨neg, f, -1074, false⟩
  else some ⟨neg, leadingBit + f, (e : Int) - 1075, f == 0 && 1 < e⟩

def ofFloat? (x : Float) : Option Binary := ofBits? x.toBits

/-- The integer part: the digits behind the binary point are dropped, toward zero. -/
def truncate (x : Binary) : Int :=
  let n := shiftBinary x.m x.q / shiftBinary 1 (-x.q)
  if x.negative then -(n : Int) else n

end Binary

end Skew.Decimal
