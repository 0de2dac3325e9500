import Skew.Decimal.Binary

/-!
# Shortest decimals

The fewest decimal digits that read back to a given float, selected by exact
integer arithmetic. The reals that round to a float form an interval around it;
of the decimals inside with the fewest digits the closest is taken.
-/

namespace Skew.Decimal

/-- The number `digits * 10 ^ exp`. -/
structure Dec where
  digits : Nat
  exp : Int
deriving DecidableEq, Repr

/-- What to do when two candidates are equally close. -/
inductive Tie where
  | toEven
  | awayFromZero
deriving DecidableEq, Repr

/-- Compare `a * 10 ^ i` with `n * 2 ^ j`, exactly. -/
def compareScaled (a : Nat) (i : Int) (n : Nat) (j : Int) : Ordering :=
  compare (shiftBinary (shiftDecimal a i) (-j)) (shiftDecimal (shiftBinary n j) (-i))

namespace Binary

/-- The decimal lies among the reals that round to `x`; the ends of the interval
belong to it when `x` has an even `m`. -/
def readsBack (x : Binary) (d : Dec) : Bool :=
  let low := if x.narrowBelow then 4 * x.m - 1 else 4 * x.m - 2
  let high := 4 * x.m + 2
  let ends := x.m % 2 == 0
  let atLow := compareScaled d.digits d.exp low (x.q - 2)
  let atHigh := compareScaled d.digits d.exp high (x.q - 2)
  (atLow == .gt || (ends && atLow == .eq)) && (atHigh == .lt || (ends && atHigh == .eq))

/-- The least `k` with `x < 10 ^ k`, estimated from the binary logarithm and set
right by comparison. -/
def scale (x : Binary) : Int :=
  let guess := ((x.m.log2 : Int) + x.q) * 30103 / 100000
  let tries := [guess - 1, guess, guess + 1, guess + 2, guess + 3]
  (tries.find? fun k => compareScaled 1 k x.m x.q == .gt).getD (guess + 4)

/-- The quotient of `x` by `10 ^ g`, rounded down. -/
def onGrid (x : Binary) (g : Int) : Nat :=
  shiftDecimal (shiftBinary x.m x.q) (-g) / shiftDecimal (shiftBinary 1 (-x.q)) g

/-- Of the two neighbours of `x` among the multiples of `10 ^ g` the one that
reads back, the closer one if both do. -/
def neighbour? (x : Binary) (tie : Tie) (g : Int) : Option Dec :=
  let c := x.onGrid g
  let below : Dec := ⟨c, g⟩
  let above : Dec := ⟨c + 1, g⟩
  match x.readsBack below, x.readsBack above with
  | false, false => none
  | true, false => some below
  | false, true => some above
  | true, true =>
    match compareScaled (2 * c + 1) g (2 * x.m) x.q, tie with
    | .gt, _ => some below
    | .lt, _ => some above
    | .eq, .awayFromZero => some above
    | .eq, .toEven => if c % 2 = 0 then some below else some above

/-- The exact value as a decimal, however many digits that takes. -/
def exactly (x : Binary) : Dec :=
  ⟨shiftBinary x.m x.q * Nat.pow 5 (-x.q).toNat, if x.q < 0 then x.q else 0⟩

end Binary

/-- Moves trailing zeros of the digits into the exponent, as many as `limit` at most. -/
def Dec.strip : Nat → Dec → Dec
  | 0, d => d
  | limit + 1, d =>
    if d.digits ≠ 0 ∧ d.digits % 10 = 0 then strip limit ⟨d.digits / 10, d.exp + 1⟩ else d

/-- The shortest decimal that reads back to `x`, which is not zero. Seventeen
digits always suffice. -/
def Binary.shortest (x : Binary) (tie : Tie) : Dec :=
  let k := x.scale
  let found := (List.range 17).findSome? fun n => x.neighbour? tie (k - 1 - (n : Nat))
  (found.getD x.exactly).strip 800

end Skew.Decimal
