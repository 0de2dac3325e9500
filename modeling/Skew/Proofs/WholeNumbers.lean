import Skew.Proofs.Documents
import Skew.Proofs.Decimals
import Skew.Proofs.ExactFloats
import Skew.Proofs.Storage

/-!
# Whole numbers in integer fields

An integer field keeps a number as it is as long as it fits into 64 bits (`Kind.TakesWhole.kept`).
What becomes of a larger one depends on how it is written. A text is refused. A number on the wire
is first turned into a float, which is then cut off at the end of the range, as every float is, so
that the field stores the largest or the smallest integer in place of the number
(`Field.takes_whole`).
-/

namespace Skew

open Decimal (number? number?_eq integerPart intText natText natDigits readInt? readInt64? splitSign)

/-! ## Texts of whole numbers -/

namespace Text

theorem trimStart_of_forall {s : List Char} (h : ∀ c ∈ s, isBlank c = false) : trimStart s = s := by
  cases s with
  | nil => rfl
  | cons c s => rw [trimStart, List.dropWhile_cons, h c List.mem_cons_self, if_neg Bool.false_ne_true]

/-- A text without blanks is not trimmed. -/
theorem trim_of_forall {s : List Char} (h : ∀ c ∈ s, isBlank c = false) : trim s = s := by
  rw [trim, trimStart_of_forall h, trimStart_of_forall fun c hc => h c (List.mem_reverse.mp hc),
    List.reverse_reverse]

end Text

namespace Decimal

theorem toList_intText (n : ℤ) :
    (intText n).toList = if n < 0 then '-' :: natDigits n.natAbs else natDigits n.natAbs := by
  rw [intText]
  split
  · simp [natText]
  · rw [natText, String.toList_ofList]

theorem splitSign_natDigits (n : ℕ) : splitSign (natDigits n) = (false, natDigits n) := by
  obtain ⟨c, ds, hds⟩ := List.exists_cons_of_ne_nil (natDigits_ne_nil n)
  have hdigit : isDigit c = true := isDigit_of_mem_natDigits (n := n) (hds ▸ List.mem_cons_self)
  rw [hds, splitSign]
  · rintro s ⟨⟩
    exact absurd hdigit (by decide)
  · rintro s ⟨⟩
    exact absurd hdigit (by decide)

/-- A whole number is read from its text. -/
theorem readInt?_intText (n : ℤ) : readInt? (intText n).toList = some n := by
  have hdigits : ((natDigits n.natAbs).isEmpty || !(natDigits n.natAbs).all isDigit) = false := by
    rw [Bool.or_eq_false_iff, List.isEmpty_eq_false_iff, Bool.not_eq_false', List.all_eq_true]
    exact ⟨natDigits_ne_nil _, fun c => isDigit_of_mem_natDigits⟩
  rw [toList_intText]
  split
  · next hneg =>
      rw [readInt?, splitSign]
      simp only [hdigits, ofDigits_natDigits, Bool.false_eq_true, if_false, if_true]
      exact congrArg some (by omega)
  · next hpos =>
      rw [readInt?, splitSign_natDigits]
      simp only [hdigits, ofDigits_natDigits, Bool.false_eq_true, if_false]
      exact congrArg some (by omega)

theorem isBlank_of_mem_intText {n : ℤ} {c : Char} (h : c ∈ (intText n).toList) :
    Text.isBlank c = false := by
  have hdigits : c ∈ natDigits n.natAbs → Text.isBlank c = false := fun h =>
    Text.isBlank_of_isDigit (isDigit_of_mem_natDigits h)
  rw [toList_intText] at h
  split at h
  · rcases List.mem_cons.mp h with rfl | h
    · decide
    · exact hdigits h
  · exact hdigits h

theorem readInt64?_trim_intText (n : ℤ) :
    readInt64? (Text.trim (intText n).toList) =
      if Int64.minValue.toInt ≤ n ∧ n ≤ Int64.maxValue.toInt then some (Int64.ofInt n) else none := by
  rw [Text.trim_of_forall fun c => isBlank_of_mem_intText, readInt64?, readInt?_intText]

end Decimal

/-! ## Numbers cut off at the ends of the range -/

/-- What an integer kind makes of the whole number `n`. -/
structure Kind.TakesWhole (nonNegative : Bool) (n : ℤ) (r : Except ValueFault Value) : Prop where
  refused : nonNegative = true → n < 0 →
    r = .error (.negative (intText (max Int64.minValue.toInt n)))
  kept : (nonNegative = true → 0 ≤ n) → Int64.minValue.toInt ≤ n → n ≤ Int64.maxValue.toInt →
    ∃ m : Int64, r = .ok (.int m) ∧ m.toInt = n
  above : Int64.maxValue.toInt < n → r = .ok (.int Int64.maxValue)
  below : nonNegative = false → n < Int64.minValue.toInt → r = .ok (.int Int64.minValue)

/-- A whole number, cut off at the ends of the 64-bit range. -/
def clampInt64 (n : ℤ) : Int64 := Int64.ofInt (max Int64.minValue.toInt (min Int64.maxValue.toInt n))

theorem toInt_clampInt64 (n : ℤ) :
    (clampInt64 n).toInt = max Int64.minValue.toInt (min Int64.maxValue.toInt n) := by
  have hends : Int64.minValue.toInt ≤ Int64.maxValue.toInt := by decide
  apply Int64.toInt_ofInt_of_le
  · exact Int.le_max_left _ _
  · exact Int.lt_add_one_iff.mpr (max_le hends (min_le_left _ _))

theorem clampInt64_of_le {n : ℤ} (h : Int64.maxValue.toInt ≤ n) : clampInt64 n = Int64.maxValue := by
  rw [← Int64.toInt_inj, toInt_clampInt64, min_eq_left h]
  decide

theorem clampInt64_neg_iff (n : ℤ) : clampInt64 n < 0 ↔ n < 0 := by
  rw [Int64.lt_iff_toInt_lt, toInt_clampInt64, Int64.toInt_zero, max_lt_iff, min_lt_iff]
  have hmin : Int64.minValue.toInt < 0 := by decide
  have hmax : ¬ Int64.maxValue.toInt < 0 := by decide
  simp only [hmin, hmax, true_and, false_or]

/-- A finite float denotes its integer part, cut off at the ends of the range. -/
theorem Value.toInteger_float {x : Float} {q : ℚ} (h : number? x = some q) (kind : Kind) :
    (Value.float x).toInteger kind = .ok (clampInt64 (integerPart q)) := by
  rw [number?_eq, Option.map_eq_some_iff] at h
  obtain ⟨b, hb, rfl⟩ := h
  have hpart : integerPart? x = some (clampInt64 (integerPart b.value)) := by
    rw [integerPart?, hb, Option.map_some, b.truncate_eq]
    rfl
  rw [Value.toInteger, hpart]

namespace Kind.TakesWhole

variable {nonNegative : Bool} {n : ℤ} {v : Value}

/-- A value that denotes a number cut off at the ends of the range. -/
theorem of_toInteger (h : v.toInteger (.integer nonNegative) = .ok (clampInt64 n)) :
    TakesWhole nonNegative n (coerceInteger nonNegative v) := by
  have hclamp := toInt_clampInt64 n
  have hcoerce : coerceInteger nonNegative v =
      if nonNegative ∧ n < 0 then .error (.negative (intText (clampInt64 n).toInt))
      else .ok (.int (clampInt64 n)) := by
    rw [coerceInteger, h, Except.ok_bind]
    simp only [clampInt64_neg_iff]
  rw [hcoerce]
  have hmin : Int64.minValue.toInt < 0 := by decide
  have hmax : 0 < Int64.maxValue.toInt := by decide
  constructor
  · intro hkind hneg
    rw [if_pos ⟨hkind, hneg⟩, hclamp, min_eq_right (by omega)]
  · intro hkind hlow hhigh
    rw [if_neg (fun h => by have := hkind h.1; omega)]
    exact ⟨_, rfl, by rw [hclamp, min_eq_right hhigh, max_eq_right hlow]⟩
  · intro habove
    rw [if_neg (by omega), clampInt64_of_le habove.le]
  · intro hkind hbelow
    rw [if_neg (fun h => by simp [hkind] at h)]
    have : clampInt64 n = Int64.minValue := by
      rw [← Int64.toInt_inj, hclamp, min_eq_right (by omega), max_eq_left hbelow.le]
    rw [this]

/-- Floats are taken by their integer parts. -/
theorem float {x : Float} {q : ℚ} (h : number? x = some q) :
    TakesWhole nonNegative (integerPart q) (coerceInteger nonNegative (.float x)) :=
  of_toInteger (Value.toInteger_float h _)

/-- Whole numbers on the wire, as far as they are ones for 64 bits with or without a sign. -/
theorem ofInt (hlow : Int64.minValue.toInt ≤ n) (hhigh : n < 2 ^ 64) :
    TakesWhole nonNegative n (coerceInteger nonNegative (.ofInt n)) := by
  apply of_toInteger
  have hends : 0 < Int64.maxValue.toInt := by decide
  by_cases hrange : n ≤ Int64.maxValue.toInt
  · rw [Value.ofInt, if_pos ⟨hlow, hrange⟩, clampInt64, min_eq_right hrange, max_eq_right hlow]
    rfl
  · have hbound : 2 ^ 63 ≤ n.natAbs := by
      have : Int64.maxValue.toInt = 2 ^ 63 - 1 := by decide
      omega
    obtain ⟨m, hm, hnumber⟩ := Decimal.exists_number?_nearest hbound (by omega)
    have habove : Int64.maxValue.toInt ≤ m := by
      have : Int64.maxValue.toInt = 2 ^ 63 - 1 := by decide
      omega
    rw [Value.ofInt, if_neg (fun h => hrange h.2), if_neg (by omega),
      Value.toInteger_float hnumber, Decimal.integerPart_natCast, clampInt64_of_le habove,
      clampInt64_of_le (by omega)]

/-- Texts of whole numbers in the range. -/
theorem text (hlow : Int64.minValue.toInt ≤ n) (hhigh : n ≤ Int64.maxValue.toInt) :
    TakesWhole nonNegative n (coerceInteger nonNegative (.str (intText n))) := by
  apply of_toInteger
  rw [Value.toInteger, Decimal.readInt64?_trim_intText, if_pos ⟨hlow, hhigh⟩, clampInt64,
    min_eq_right hhigh, max_eq_right hlow]

end Kind.TakesWhole

/-! ## Fields -/

theorem coerceInteger_idem {nonNegative : Bool} {v w : Value}
    (h : coerceInteger nonNegative v = .ok w) :
    w.isNull = false ∧ coerceInteger nonNegative w = .ok w := by
  rw [coerceInteger] at h
  obtain ⟨m, -, h⟩ := Except.bind_eq_ok_iff.mp h
  split at h
  · cases h
  · next hsign =>
      cases h
      exact ⟨rfl, if_neg hsign⟩

section

variable [Codecs]

theorem Kind.coerce_bare_of_ne_null {v : Value} (hv : v.isNull = false) :
    ∀ k : Kind, k.bare.coerce v = k.coerce v
  | .nullable k => by
      rw [Kind.coerce, hv, if_neg Bool.false_ne_true]
      exact coerce_bare_of_ne_null hv k
  | .integer _ | .float _ | .string | .boolean | .datetime | .uuid | .address | .enum _ | .list _
  | .set _ | .dict _ | .object _ | .listOfObjects _ | .custom _ => rfl

namespace Field

variable {f : Field} {nonNegative : Bool} (hkind : f.kind.bare = .integer nonNegative)
include hkind

theorem coerce_whole {v : Value} (hv : v.isNull = false) :
    f.coerce v = coerceInteger nonNegative v := by
  rw [Field.coerce, hv, if_neg Bool.false_ne_true, ← Kind.coerce_bare_of_ne_null hv, hkind,
    Kind.coerce]

/-- Storing the integer that was read changes nothing. -/
theorem take_whole (registry : Registry) (context? : Option Context) (name : String) {j : Json}
    {v : Value} (hread : (j.reading registry context?).field name f.kind =
      inField name (coerceInteger nonNegative v)) :
    f.ofJson registry context? name j = inField name (coerceInteger nonNegative v) ∧
    f.take name (j.reading registry context?) = inField name (coerceInteger nonNegative v) := by
  have hofJson : f.ofJson registry context? name j = inField name (coerceInteger nonNegative v) := by
    rw [Field.ofJson, Field.read, hread]
    cases h : coerceInteger nonNegative v with
    | error fault => rfl
    | ok w =>
        show (if w.isNull ∧ ¬ f.isNullable then inField name (f.coerce w) else .ok w) = .ok w
        rw [if_neg (by simp [(coerceInteger_idem h).1])]
  refine ⟨hofJson, ?_⟩
  rw [Field.take]
  rw [Field.ofJson] at hofJson
  rw [hofJson]
  cases h : coerceInteger nonNegative v with
  | error fault => rfl
  | ok w =>
      show inField name (f.coerce w) = .ok w
      rw [coerce_whole hkind (coerceInteger_idem h).1, (coerceInteger_idem h).2]
      rfl

/-- An integer field keeps the integers of 64 bits. Of numbers outside the range it refuses the
texts, and takes an end of the range for those on the wire and for floats. -/
theorem takes_whole (registry : Registry) (context? : Option Context) (name : String) :
    (∀ n : ℤ, Int64.minValue.toInt ≤ n → n < 2 ^ 64 → ∃ r, Kind.TakesWhole nonNegative n r ∧
      f.ofJson registry context? name (.int n) = inField name r ∧
      f.take name ((Json.int n).reading registry context?) = inField name r) ∧
    (∀ x, x.isFinite = true → ∃ q r, number? x = some q ∧
      Kind.TakesWhole nonNegative (integerPart q) r ∧ f.coerce (.float x) = r ∧
      f.ofJson registry context? name (.float x) = inField name r ∧
      f.take name ((Json.float x).reading registry context?) = inField name r) ∧
    (∀ n : ℤ, Int64.minValue.toInt ≤ n ∧ n ≤ Int64.maxValue.toInt →
      Kind.TakesWhole nonNegative n (f.coerce (.str (intText n)))) ∧
    (∀ n : ℤ, ¬ (Int64.minValue.toInt ≤ n ∧ n ≤ Int64.maxValue.toInt) →
      f.coerce (.str (intText n)) = .error (.notInteger (intText n))) := by
  refine ⟨fun n hlow hhigh => ?_, fun x hfinite => ?_, fun n hrange => ?_, fun n hrange => ?_⟩
  · refine ⟨_, .ofInt hlow hhigh, take_whole hkind registry context? name ?_⟩
    show Json.readLeaf _ name f.kind.bare = _
    rw [hkind]
    rfl
  · obtain ⟨q, hnumber⟩ :=
      Option.isSome_iff_exists.mp ((Decimal.number?_isSome x).trans hfinite)
    refine ⟨q, _, hnumber, .float hnumber, coerce_whole hkind rfl,
      take_whole hkind registry context? name ?_⟩
    show Json.readLeaf _ name f.kind.bare = _
    rw [hkind]
    rfl
  · rw [coerce_whole hkind rfl]
    exact .text hrange.1 hrange.2
  · rw [coerce_whole hkind rfl, coerceInteger, Value.toInteger, Decimal.readInt64?_trim_intText,
      if_neg hrange]
    rfl

end Field

end

namespace Odometer

attribute [local instance] Codecs.none

def distance : Field := ⟨.integer true, false, none⟩

/-- The number 2 ^ 64. -/
def far : Float := Float.ofBits 0x43F0000000000000

theorem number?_far : number? far = some 18446744073709551616 := by
  have hfar : Decimal.Binary.ofFloat? far = some ⟨false, 2 ^ 52, 12, true⟩ := rfl
  rw [number?_eq, hfar, Option.map_some, Decimal.Binary.value]
  norm_num

theorem distance_taken :
    distance.kind.bare = .integer true ∧
    (∃ m : Int64, m.toInt = 4096 ∧
      distance.take "distance" ((Json.int 4096).reading .empty none) = .ok (.int m)) ∧
    distance.coerce (.float far) = .ok (.int Int64.maxValue) ∧
    distance.coerce (.str (intText (-7))) = .error (.negative (intText (-7))) ∧
    distance.coerce (.str (intText 9223372036854775808)) =
      .error (.notInteger (intText 9223372036854775808)) := by
  have hkind : distance.kind.bare = .integer true := rfl
  obtain ⟨hwire, hfloats, htexts, hrefused⟩ := Field.takes_whole hkind .empty none "distance"
  obtain ⟨r, hr, -, htake⟩ := hwire 4096 (by decide) (by decide)
  obtain ⟨m, rfl, hm⟩ := hr.kept (by decide) (by decide) (by decide)
  obtain ⟨q, r, hnumber, hr, hcoerce, -⟩ := hfloats far rfl
  cases number?_far.symm.trans hnumber
  refine ⟨hkind, ⟨m, hm, htake⟩, ?_, ?_, hrefused _ (by decide)⟩
  · rw [hcoerce]
    exact hr.above (by decide)
  · exact (htexts (-7) (by decide)).refused rfl (by decide)

/-- A number on the wire, and a float, in place of which another one is stored. The text of the
number is refused. -/
theorem another_number_stored :
    distance.ofJson .empty none "distance" (.int 9223372036854775808) = .ok (.int Int64.maxValue) ∧
    Int64.maxValue.toInt ≠ 9223372036854775808 ∧
    number? far = some 18446744073709551616 ∧
    distance.coerce (.float far) = .ok (.int Int64.maxValue) ∧
    Int64.maxValue.toInt ≠ integerPart 18446744073709551616 ∧
    distance.coerce (.str "9223372036854775808") = .error (.notInteger "9223372036854775808") := by
  refine ⟨rfl, by decide, number?_far, rfl, ?_, rfl⟩
  have : integerPart 18446744073709551616 = 18446744073709551616 :=
    Decimal.integerPart_natCast 18446744073709551616
  rw [this]
  decide

end Odometer

end Skew
