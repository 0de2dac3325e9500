import Mathlib
import Skew.Decimal.Rounding

/-!
# The number of a float

A finite float denotes a rational number (`Decimal.number?`), which is read off the sign, the
significand and the exponent that its word packs. Decoding the word by shifts and masks gives the
same number (`Decimal.number?_eq`), and dropping the digits behind the binary point gives its
integer part (`Decimal.Binary.truncate_eq`).
-/

namespace Skew.Decimal

open Float.Model (UnpackedFloat)
open Float.Model.UnpackedFloat (unpackExponent unpackMantissa unpackSign)

/-- The number of an unpacked float: its significand times a power of two. -/
def unpacked? : UnpackedFloat → Option ℚ
  | .zero _ => some 0
  | .finite s m e _ => some (s.apply m * 2 ^ e)
  | .infinity _ | .notANumber => none

/-- The number that a float denotes, if it is finite. -/
def number? (x : Float) : Option ℚ := unpacked? x.toModel.unpack

/-- A number without its fraction. -/
def integerPart (q : ℚ) : ℤ := if 0 ≤ q then ⌊q⌋ else ⌈q⌉

theorem number?_isSome (x : Float) : (number? x).isSome = x.isFinite := by
  show _ = x.toModel.unpack.isFinite
  rw [number?]
  cases x.toModel.unpack <;> rfl

/-! ## The fields of a word -/

theorem exponentField_eq (b : UInt64) :
    ((b >>> 52) &&& 0x7FF).toNat = b.toNat / leadingBit % 0x800 := by
  rw [UInt64.toNat_and, UInt64.toNat_shiftRight]
  show b.toNat >>> 52 &&& 0x7FF = _
  rw [Nat.shiftRight_eq_div_pow]
  exact Nat.and_two_pow_sub_one_eq_mod _ 11

theorem fractionField_eq (b : UInt64) : (b &&& 0xFFFFFFFFFFFFF).toNat = b.toNat % leadingBit := by
  rw [UInt64.toNat_and]
  exact Nat.and_two_pow_sub_one_eq_mod _ 52

theorem toNat_exponent (b : UInt64) :
    (@unpackExponent .binary64 b.toBitVec).toNat = ((b >>> 52) &&& 0x7FF).toNat := by
  rw [UnpackedFloat.unpackExponent_def, BitVec.extractLsb'_toNat, exponentField_eq]
  show b.toNat >>> 52 % 2 ^ 11 = _
  rw [Nat.shiftRight_eq_div_pow]
  rfl

theorem toNat_fraction (b : UInt64) :
    (@unpackMantissa .binary64 b.toBitVec).toNat = (b &&& 0xFFFFFFFFFFFFF).toNat := by
  rw [UnpackedFloat.unpackMantissa_def, BitVec.extractLsb'_toNat, fractionField_eq]
  rfl

theorem sign_eq (b : UInt64) :
    UnpackedFloat.Sign.ofBitVec (@unpackSign .binary64 b.toBitVec) =
      if b >>> 63 == 1 then .negative else .positive := by
  have hlt : b.toNat >>> 63 < 2 := by
    rw [Nat.shiftRight_eq_div_pow]
    exact Nat.div_lt_of_lt_mul b.toNat_lt
  have hpositive : @unpackSign .binary64 b.toBitVec = 0#1 ↔ b.toNat >>> 63 = 0 := by
    rw [← BitVec.toNat_inj, UnpackedFloat.unpackSign_def, BitVec.extractLsb'_toNat]
    show b.toNat >>> 63 % 2 ^ 1 = 0 ↔ _
    rw [Nat.mod_eq_of_lt hlt]
  have hnegative : (b >>> 63 == 1) = true ↔ b.toNat >>> 63 = 1 := by
    rw [beq_iff_eq, ← UInt64.toNat_inj, UInt64.toNat_shiftRight]
    rfl
  rw [UnpackedFloat.Sign.ofBitVec]
  by_cases hzero : b.toNat >>> 63 = 0
  · rw [if_pos (hpositive.mpr hzero), if_neg (by rw [hnegative]; omega)]
  · rw [if_neg (fun h => hzero (hpositive.mp h)), if_pos (by rw [hnegative]; omega)]

/-! ## The number of a word -/

/-- The number of a decoded word. -/
def Binary.value (b : Binary) : ℚ := ((if b.negative then -(b.m : ℤ) else b.m : ℤ) : ℚ) * 2 ^ b.q

theorem apply_sign (negative : Bool) (n : ℤ) :
    (if negative then UnpackedFloat.Sign.negative else .positive).apply n =
      if negative then -n else n := by
  cases negative <;> rfl

/-- The number is the one of the decoded word. -/
theorem number?_eq (x : Float) : number? x = (Binary.ofFloat? x).map Binary.value := by
  have hexponent := toNat_exponent x.toBits
  have hfraction := toNat_fraction x.toBits
  have hlead : (1#1 ++ @unpackMantissa .binary64 x.toBits.toBitVec).toNat =
      leadingBit + (x.toBits &&& 0xFFFFFFFFFFFFF).toNat := by
    rw [BitVec.toNat_append, ← Nat.shiftLeft_add_eq_or_of_lt (BitVec.isLt _), hfraction]
    rfl
  rw [Binary.ofFloat?, Binary.ofBits?]
  show unpacked? (UnpackedFloat.unpack .binary64 x.toBits.toBitVec) = _
  rw [UnpackedFloat.unpack, sign_eq]
  dsimp only
  by_cases hmax : ((x.toBits >>> 52) &&& 0x7FF).toNat = 0x7FF
  · have hones : @unpackExponent .binary64 x.toBits.toBitVec = -1#11 :=
      BitVec.toNat_inj.mp (hexponent.trans hmax)
    rw [if_pos hones, if_pos hmax]
    split <;> rfl
  · have hones : @unpackExponent .binary64 x.toBits.toBitVec ≠ -1#11 := fun h =>
      hmax (hexponent.symm.trans (congrArg BitVec.toNat h))
    rw [if_neg hones, if_neg hmax]
    by_cases hmin : ((x.toBits >>> 52) &&& 0x7FF).toNat = 0
    · have hzeros : @unpackExponent .binary64 x.toBits.toBitVec = 0#11 :=
        BitVec.toNat_inj.mp (hexponent.trans hmin)
      rw [if_pos hzeros, if_pos hmin, Option.map_some, Binary.value]
      split
      · next hnone =>
          have hnone : (x.toBits &&& 0xFFFFFFFFFFFFF).toNat = 0 :=
            hfraction.symm.trans (congrArg BitVec.toNat hnone)
          rw [hnone]
          simp [unpacked?]
      · rw [unpacked?, apply_sign, hfraction, hexponent, hmin]
        rfl
    · have hzeros : @unpackExponent .binary64 x.toBits.toBitVec ≠ 0#11 := fun h =>
        hmin (hexponent.symm.trans (congrArg BitVec.toNat h))
      rw [if_neg hzeros, if_neg hmin, Option.map_some, Binary.value, unpacked?, apply_sign, hlead,
        hexponent]
      rfl

/-! ## Integer parts -/

theorem shiftBinary_cast (n : ℕ) (k : ℤ) : (shiftBinary n k : ℚ) = n * 2 ^ k.toNat := by
  show ((n * 2 ^ k.toNat : ℕ) : ℚ) = n * 2 ^ k.toNat
  push_cast
  rfl

/-- The number of a significand and an exponent, as the quotient of two shifted numbers. -/
theorem mul_zpow_eq_div (m : ℕ) (q : ℤ) :
    (m : ℚ) * 2 ^ q = (shiftBinary m q : ℚ) / shiftBinary 1 (-q) := by
  rw [shiftBinary_cast, shiftBinary_cast, Nat.cast_one, one_mul]
  rcases Int.le_total 0 q with hq | hq
  · rw [Int.toNat_of_nonpos (Int.neg_nonpos_of_nonneg hq), pow_zero, div_one, ← zpow_natCast,
      Int.toNat_of_nonneg hq]
  · rw [Int.toNat_of_nonpos hq, pow_zero, mul_one, ← zpow_natCast,
      Int.toNat_of_nonneg (Int.neg_nonneg_of_nonpos hq), zpow_neg, div_inv_eq_mul]

theorem integerPart_of_nonneg {q : ℚ} (h : 0 ≤ q) : integerPart q = ⌊q⌋ := if_pos h

theorem integerPart_natCast (n : ℕ) : integerPart n = n := by
  rw [integerPart_of_nonneg n.cast_nonneg, Int.floor_natCast]

theorem integerPart_neg {q : ℚ} (h : 0 ≤ q) : integerPart (-q) = -⌊q⌋ := by
  rw [integerPart]
  split
  · next hneg =>
      obtain rfl : q = 0 := le_antisymm (neg_nonneg.mp hneg) h
      simp
  · exact Int.ceil_neg

/-- Dropping the digits behind the binary point leaves the integer part. -/
theorem Binary.truncate_eq (b : Binary) : b.truncate = integerPart b.value := by
  have hfloor : ⌊(b.m : ℚ) * 2 ^ b.q⌋ = (shiftBinary b.m b.q / shiftBinary 1 (-b.q) : ℕ) := by
    rw [mul_zpow_eq_div]
    exact Rat.floor_natCast_div_natCast _ _
  have hpos : 0 ≤ (b.m : ℚ) * 2 ^ b.q := by positivity
  rw [truncate, value]
  cases b.negative with
  | false =>
      have hvalue : ((b.m : ℤ) : ℚ) * 2 ^ b.q = b.m * 2 ^ b.q := by rw [Int.cast_natCast]
      rw [if_neg Bool.false_ne_true, if_neg Bool.false_ne_true, hvalue, integerPart_of_nonneg hpos,
        hfloor]
  | true =>
      have hvalue : ((-(b.m : ℤ) : ℤ) : ℚ) * 2 ^ b.q = -(b.m * 2 ^ b.q) := by
        rw [Int.cast_neg, Int.cast_natCast, neg_mul]
      rw [if_pos rfl, if_pos rfl, hvalue, integerPart_neg hpos, hfloor]

/-! ## Rounded numbers -/

/-- A word is the word of its float, unless its exponent says that it is none. -/
theorem toBits_ofBits {b : UInt64} (h : ((b >>> 52) &&& 0x7FF).toNat ≠ 0x7FF) :
    (Float.ofBits b).toBits = b := by
  have hexponent : @unpackExponent .binary64 b.toBitVec ≠ -1#11 := fun hones =>
    h ((toNat_exponent b).symm.trans (congrArg BitVec.toNat hones))
  have hnumber : ¬ @UnpackedFloat.isNaNBits .binary64 b.toBitVec := by
    rw [UnpackedFloat.isNaNBits, decide_eq_true_iff]
    exact fun hnan => hexponent hnan.1
  have hpack := @UnpackedFloat.pack_unpack .binary64 b.toBitVec (by decide)
  rw [if_neg hnumber] at hpack
  exact UInt64.toBitVec_inj.mp hpack

/-- The number of the word with the exponent field `e` and the fraction `f`. -/
theorem number?_fields {e f : ℕ} (hpos : 0 < e) (he : e < 0x7FF) (hf : f < leadingBit) :
    number? (Float.ofBits (UInt64.ofNat (e * leadingBit + f))) =
      some (((leadingBit + f : ℕ) : ℚ) * 2 ^ ((e : ℤ) - 1075)) := by
  have hword : (UInt64.ofNat (e * leadingBit + f)).toNat = e * leadingBit + f := by
    rw [UInt64.toNat_ofNat']
    exact Nat.mod_eq_of_lt (by rw [leadingBit] at *; omega)
  set b := UInt64.ofNat (e * leadingBit + f)
  have hexponent : ((b >>> 52) &&& 0x7FF).toNat = e := by
    rw [exponentField_eq, hword]
    rw [leadingBit] at *
    omega
  have hfraction : (b &&& 0xFFFFFFFFFFFFF).toNat = f := by
    rw [fractionField_eq, hword, Nat.mul_add_mod_self_right]
    exact Nat.mod_eq_of_lt hf
  have hsign : (b >>> 63 == 1) = false := by
    rw [beq_eq_false_iff_ne, Ne, ← UInt64.toNat_inj, UInt64.toNat_shiftRight, hword]
    show ¬(e * leadingBit + f) >>> 63 = 1
    rw [Nat.shiftRight_eq_div_pow]
    rw [leadingBit] at *
    omega
  rw [number?_eq, Binary.ofFloat?, toBits_ofBits (by omega), Binary.ofBits?]
  simp only [hexponent, hfraction, hsign]
  rw [if_neg (by omega), if_neg (by omega), Option.map_some, Binary.value]
  rfl

/-- The same for a significand that rounding may have carried into the next power of two. -/
theorem number?_ofBits {p r : ℕ} (hp : p ≤ 2044) (hlow : leadingBit ≤ r)
    (hhigh : r ≤ 2 * leadingBit) :
    number? (Float.ofBits (UInt64.ofNat (p * leadingBit + r))) =
      some ((r : ℚ) * 2 ^ ((p : ℤ) - 1074)) := by
  rcases Nat.lt_or_ge r (2 * leadingBit) with hlt | hge
  · have hword : p * leadingBit + r = (p + 1) * leadingBit + (r - leadingBit) := by
      rw [Nat.add_mul, Nat.one_mul]; omega
    rw [hword, number?_fields (by omega) (by omega) (by omega), Nat.add_sub_cancel' hlow]
    push_cast
    ring_nf
  · obtain rfl : r = 2 * leadingBit := by omega
    have hword : p * leadingBit + 2 * leadingBit = (p + 2) * leadingBit + 0 := by ring
    rw [hword, number?_fields (by omega) (by omega) (by decide)]
    have hexponent : ((p + 2 : ℕ) : ℤ) - 1075 = (p - 1074) + 1 := by push_cast; ring
    rw [hexponent, zpow_add_one₀ two_ne_zero]
    push_cast
    ring_nf

theorem le_roundDiv (n d : ℕ) : n / d ≤ roundDiv n d ∧ roundDiv n d ≤ n / d + 1 := by
  rw [roundDiv]
  split <;> omega

/-- A whole number with more binary digits than a significand holds is rounded to a multiple
of the power of two that is left over. -/
theorem number?_nearestRatio {n k : ℕ} (hk : k ≤ 970) (hlog : n.log2 = k + 52) :
    number? (nearestRatio n 1) = some ((roundDiv n (2 ^ k) : ℚ) * 2 ^ k) := by
  have hn : n ≠ 0 := by
    rintro rfl
    simp at hlog
  have hlow : leadingBit * 2 ^ k ≤ n := by
    have := Nat.log2_self_le hn
    rw [hlog, Nat.add_comm, Nat.pow_add] at this
    exact this
  have hhigh : n < 2 * leadingBit * 2 ^ k := by
    have := Nat.lt_log2_self (n := n)
    rw [hlog, Nat.add_assoc, Nat.add_comm, Nat.pow_add] at this
    exact this
  have hdiv : leadingBit ≤ n / 2 ^ k := (Nat.le_div_iff_mul_le (by positivity)).mpr hlow
  have hdiv' : n / 2 ^ k < 2 * leadingBit := (Nat.div_lt_iff_lt_mul (by positivity)).mpr hhigh
  have hround := le_roundDiv n (2 ^ k)
  have hover : overPower n 1 k = (n, 2 ^ k) := by
    rw [overPower, shiftBinary, shiftBinary, Int.toNat_neg_natCast, Int.toNat_natCast, Nat.one_mul]
    exact congrArg (·, 2 ^ k) (Nat.mul_one n)
  have hplace : lastPlace n 1 = k := by
    have hdigit : (n.log2 : ℤ) - Nat.log2 1 - 52 = k := by
      rw [hlog]
      show ((k + 52 : ℕ) : ℤ) - (0 : ℕ) - 52 = k
      omega
    rw [lastPlace]
    simp only [hdigit, hover]
    rw [if_neg (by omega), leastExponent]
    omega
  have hword : ((k : ℤ) - leastExponent).toNat = k + 1074 := by
    rw [leastExponent]
    omega
  have hmin : (k + 1074) * leadingBit + roundDiv n (2 ^ k) ≤ 0x7FF * leadingBit := by
    rw [leadingBit] at *
    omega
  rw [nearestRatio, if_neg hn]
  simp only [hplace, hover, hword]
  rw [Nat.min_eq_left hmin, number?_ofBits (by omega) (by omega) (by omega), Nat.cast_add,
    Nat.cast_ofNat, add_sub_cancel_right, zpow_natCast]

theorem nearest_natural {n : ℕ} (hn : n ≠ 0) (h : n < 10 ^ 20) : nearest n 0 = nearestRatio n 1 := by
  have hdigits : (Nat.toDigits 10 n).length ≤ 20 :=
    (Nat.length_toDigits_le_iff (by decide) (by decide)).mpr h
  rw [nearest, if_neg (by omega), if_neg (by omega)]
  exact congrArg₂ nearestRatio (Nat.mul_one n) rfl

/-- Rounding does not pass a power of two. -/
theorem exists_number?_nearest {n : ℕ} (hlow : 2 ^ 63 ≤ n) (hhigh : n < 2 ^ 64) :
    ∃ m : ℕ, 2 ^ 63 ≤ m ∧ number? (nearest n 0) = some (m : ℚ) := by
  have hlog : n.log2 = 11 + 52 :=
    (Nat.log2_eq_iff (by omega)).mpr ⟨hlow, hhigh⟩
  refine ⟨roundDiv n (2 ^ 11) * 2 ^ 11, ?_, ?_⟩
  · have := (le_roundDiv n (2 ^ 11)).1
    omega
  · have hsmall : n < 10 ^ 20 := hhigh.trans (by decide)
    rw [nearest_natural (by omega) hsmall, number?_nearestRatio (by decide) hlog]
    push_cast
    rfl

end Skew.Decimal
