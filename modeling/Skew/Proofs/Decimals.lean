import Mathlib.Algebra.Ring.Nat
import Skew.Calendar.Instant

/-!
# Decimal digits

The written digits of a number denote it again (`ofDigits_natDigits`), with or
without zeros in front (`ofDigits_padded`), and a number of more than one digit
does not start with a zero (`head?_natDigits`). Version texts and wire times are
read back by these three facts. Conversely, digits that do not start with a zero are the
written digits of the number they denote (`natDigits_ofDigits`).
-/

namespace Skew.Decimal

theorem isDigit_of_isDigit {c : Char} (h : c.isDigit = true) : isDigit c = true := by
  simp only [Char.isDigit, Bool.and_eq_true, decide_eq_true_eq] at h
  simp only [isDigit, Bool.and_eq_true, decide_eq_true_eq]
  exact ⟨h.1, h.2⟩

theorem isDigit_iff {c : Char} : isDigit c = true ↔ 48 ≤ c.toNat ∧ c.toNat ≤ 57 := by
  simp only [isDigit, Bool.and_eq_true, decide_eq_true_eq]
  rfl

theorem isDigit_of_mem_natDigits {n : Nat} {c : Char} (h : c ∈ natDigits n) :
    isDigit c = true :=
  isDigit_of_isDigit (Nat.isDigit_of_mem_toDigits (by decide) (by decide) h)

theorem ofDigits_eq_ofDigitChars (n : Nat) (ds : List Char) :
    ofDigits n ds = Nat.ofDigitChars 10 ds n := rfl

@[simp] theorem ofDigits_natDigits (n : Nat) : ofDigits 0 (natDigits n) = n := by
  rw [ofDigits_eq_ofDigitChars]
  exact Nat.ofDigitChars_toDigits (by decide) (by decide)

theorem natDigits_ne_nil (n : Nat) : natDigits n ≠ [] := Nat.toDigits_ne_nil

theorem length_natDigits_le {n width : Nat} (hw : 0 < width) (h : n < 10 ^ width) :
    (natDigits n).length ≤ width :=
  (Nat.length_toDigits_le_iff (by decide) hw).mpr h

theorem digitChar_ne_zero : ∀ {d : Nat}, d < 10 → d ≠ 0 → d.digitChar ≠ '0' := by
  intro d hd h0
  match d with
  | 1 | 2 | 3 | 4 | 5 | 6 | 7 | 8 | 9 => decide

theorem head?_natDigits_of_pos (n : Nat) (hn : n ≠ 0) : (natDigits n).head? ≠ some '0' := by
  induction n using Nat.strongRecOn with
  | _ n ih =>
      rw [natDigits, Nat.toDigits_eq_if (by decide)]
      split
      · next hlt => simpa using digitChar_ne_zero hlt hn
      · next hge =>
          have hrest := ih (n / 10) (by omega) (by omega)
          obtain ⟨c, cs, hcs⟩ := List.exists_cons_of_ne_nil (natDigits_ne_nil (n / 10))
          rw [natDigits] at hcs hrest
          rw [hcs] at hrest ⊢
          simpa using hrest

/-- A number written with two digits or more does not start with a zero. -/
theorem head?_natDigits {n : Nat} (h : 1 < (natDigits n).length) :
    (natDigits n).head? ≠ some '0' := by
  apply head?_natDigits_of_pos
  rintro rfl
  simp [natDigits] at h

/-- A digit is the character of its value. -/
theorem digitChar_digitValue {c : Char} (h : isDigit c = true) : (digitValue c).digitChar = c := by
  obtain ⟨hlow, hhigh⟩ := isDigit_iff.mp h
  apply Char.toNat_inj.mp
  rw [Nat.toNat_digitChar_of_lt_ten (by rw [digitValue]; omega), digitValue]
  omega

/-- Digits put behind those of a number that is not zero. -/
theorem natDigits_ofDigits_append {n : Nat} (hn : 0 < n) {ds : List Char}
    (h : ∀ c ∈ ds, isDigit c = true) : natDigits (ofDigits n ds) = natDigits n ++ ds := by
  induction ds generalizing n with
  | nil => exact (List.append_nil _).symm
  | cons c ds ih =>
      obtain ⟨hc, hds⟩ := List.forall_mem_cons.mp h
      have hlt : digitValue c < 10 := by
        have hbounds := isDigit_iff.mp hc
        rw [digitValue]
        omega
      have hnext : natDigits (10 * n + digitValue c) = natDigits n ++ [c] := by
        rw [natDigits, ← Nat.toDigits_append_toDigits (by decide) hn hlt,
          Nat.toDigits_of_lt_base hlt, digitChar_digitValue hc]
        rfl
      have hpos : 0 < 10 * n + digitValue c := by omega
      calc natDigits (ofDigits n (c :: ds))
          = natDigits (10 * n + digitValue c) ++ ds := ih hpos hds
        _ = natDigits n ++ c :: ds := by rw [hnext, List.append_assoc, List.singleton_append]

/-- Digits that do not start with a zero are those of the number that they denote. -/
theorem natDigits_ofDigits {c : Char} {ds : List Char} (h : ∀ d ∈ c :: ds, isDigit d = true)
    (hc : c ≠ '0') : natDigits (ofDigits 0 (c :: ds)) = c :: ds := by
  obtain ⟨hdigit, hds⟩ := List.forall_mem_cons.mp h
  have hbounds := isDigit_iff.mp hdigit
  have hzero : c.toNat ≠ 48 := fun heq => hc (Char.toNat_inj.mp heq)
  have hpos : 0 < digitValue c := by
    rw [digitValue]
    omega
  have hlt : digitValue c < 10 := by
    rw [digitValue]
    omega
  have hfirst : natDigits (digitValue c) = [c] := by
    rw [natDigits, Nat.toDigits_of_lt_base hlt, digitChar_digitValue hdigit]
  have hread : ofDigits 0 (c :: ds) = ofDigits (digitValue c) ds := by
    rw [ofDigits, List.foldl_cons, Nat.mul_zero, Nat.zero_add]
    rfl
  rw [hread, natDigits_ofDigits_append hpos hds, hfirst, List.singleton_append]

end Skew.Decimal

namespace Skew.Text

/-- Blanks in front of digits are told from them. -/
theorem isBlank_of_isDigit {c : Char} (h : Decimal.isDigit c = true) : isBlank c = false := by
  have hrange := Decimal.isDigit_iff.mp h
  simp only [isBlank, inRanges, blankRanges, List.any_cons, List.any_nil, Bool.or_false,
    Bool.or_eq_false_iff, Bool.and_eq_false_iff, decide_eq_false_iff_not]
  omega

end Skew.Text

namespace Skew.Calendar

open Skew.Decimal

/-! ## Fixed widths -/

theorem toList_padded (width n : Nat) :
    (padded width n).toList =
      List.replicate (width - (natDigits n).length) '0' ++ natDigits n := by
  simp [padded]

theorem length_padded {width n : Nat} (hw : 0 < width) (h : n < 10 ^ width) :
    (padded width n).toList.length = width := by
  have := length_natDigits_le hw h
  rw [toList_padded, List.length_append, List.length_replicate]
  omega

theorem isDigit_of_mem_padded {width n : Nat} {c : Char} (h : c ∈ (padded width n).toList) :
    isDigit c = true := by
  rw [toList_padded, List.mem_append, List.mem_replicate] at h
  rcases h with ⟨-, rfl⟩ | h
  · rfl
  · exact isDigit_of_mem_natDigits h

theorem ofDigits_padded (width n : Nat) : ofDigits 0 (padded width n).toList = n := by
  rw [toList_padded, ofDigits_eq_ofDigitChars, Nat.ofDigitChars_append,
    Nat.ofDigitChars_replicate_zero, Nat.mul_zero]
  exact ofDigits_natDigits n

end Skew.Calendar
