import Mathlib.Data.List.Basic
import Skew.Proofs.Decimals
import Skew.Error

/-!
# Texts of versions

The text of a version denotes that version and no other, a written patch of zero
included (`Version.read?_text`). Stamps are written and read at every level of a
backport, so this is what keeps a stamp what it says.

No other text denotes a version (`Version.read?_eq_some_iff`). Which texts these are is said
by a grammar that does not look at reading or writing (`Version.IsText`): two or three parts
between points, each the written form of a 32-bit number.
-/

namespace Skew.Version

open Skew.Decimal

/-! ## Pieces between points -/

theorem splitParts_eq_splitOn (s : List Char) : splitParts s = s.splitOn '.' := by
  induction s with
  | nil => rfl
  | cons c s ih =>
      rw [splitParts, ih, List.splitOn_cons_eq_if_modifyHead]
      by_cases hc : c = '.'
      · simp [hc]
      · obtain ⟨p, ps, hps⟩ := List.exists_cons_of_ne_nil (List.splitOn_ne_nil '.' s)
        simp [hc, hps]

theorem splitParts_of_not_mem {s : List Char} (h : '.' ∉ s) : splitParts s = [s] := by
  rw [splitParts_eq_splitOn, List.splitOn_eq_singleton h]

theorem splitParts_append {s : List Char} (h : '.' ∉ s) (t : List Char) :
    splitParts (s ++ '.' :: t) = s :: splitParts t := by
  rw [splitParts_eq_splitOn, splitParts_eq_splitOn, List.splitOn_append_cons_self_of_not_mem h]

theorem point_not_mem_natDigits (n : Nat) : '.' ∉ natDigits n := fun h =>
  absurd (isDigit_of_mem_natDigits h) (by decide)

/-! ## Reading -/

/-- The digits of a 32-bit number are read as that number. -/
theorem readPart?_natDigits (n : UInt32) : readPart? (natDigits n.toNat) = some n := by
  have hempty : (natDigits n.toNat).isEmpty = false := by
    simpa using natDigits_ne_nil n.toNat
  have hall : (natDigits n.toNat).all isDigit = true :=
    List.all_eq_true.mpr fun _ => isDigit_of_mem_natDigits
  have hlead : ¬ (1 < (natDigits n.toNat).length ∧ (natDigits n.toNat).head? = some '0') :=
    fun ⟨hlen, hz⟩ => head?_natDigits hlen hz
  have hlt : n.toNat < 4294967296 := n.toNat_lt
  simp [readPart?, hempty, hall, hlead, hlt]

theorem toList_text (v : Version) :
    v.text.toList = natDigits v.major.toNat ++ '.' :: (natDigits v.minor.toNat ++
      match v.patch? with
      | some p => '.' :: natDigits p.toNat
      | none => []) := by
  rcases v with ⟨major, minor, _ | p⟩ <;> simp [text, natText]

/-- The text of a version is read as that version. -/
theorem read?_text (v : Version) : read? v.text = some v := by
  have hpoint := point_not_mem_natDigits
  rw [read?, toList_text, splitParts_append (hpoint _)]
  rcases v with ⟨major, minor, _ | p⟩
  · rw [List.append_nil, splitParts_of_not_mem (hpoint _)]
    simp [readPart?_natDigits]
  · rw [splitParts_append (hpoint _), splitParts_of_not_mem (hpoint _)]
    simp [readPart?_natDigits]

@[simp] theorem ofText_text (v : Version) : ofText v.text = .ok v := by
  rw [ofText, read?_text]

/-! ## The texts of versions -/

/-- The written form of a part: a zero alone, or digits that do not begin with one, for a number
of at most 2³² - 1. -/
structure IsPart (ds : List Char) : Prop where
  nonempty : ds ≠ []
  digits : ∀ c ∈ ds, c.isDigit = true
  canonical : ds.head? = some '0' → ds = ['0']
  bounded : Nat.ofDigitChars 10 ds 0 ≤ 4294967295

/-- Two or three parts with points between them. -/
def IsText (s : String) : Prop :=
  ∃ parts : List String, (parts.length = 2 ∨ parts.length = 3) ∧
    (∀ p ∈ parts, IsPart p.toList) ∧ s = ".".intercalate parts

theorem readPart?_eq_some_iff {ds : List Char} {n : UInt32} :
    readPart? ds = some n ↔ ds = natDigits n.toNat := by
  constructor
  · intro h
    rw [readPart?] at h
    split at h
    · cases h
    · next hform =>
        obtain ⟨hne, hdigits, hlead⟩ := by simpa only [not_or, not_not] using hform
        dsimp only at h
        split at h
        · next hlt =>
            obtain rfl : UInt32.ofNat (ofDigits 0 ds) = n := Option.some.inj h
            rw [UInt32.toNat_ofNat_of_lt' hlt]
            cases ds with
            | nil => exact absurd rfl hne
            | cons c ds =>
                by_cases hc : c = '0'
                · subst hc
                  have hds : ds = [] := by simpa using hlead
                  rw [hds]
                  rfl
                · exact (natDigits_ofDigits (List.all_eq_true.mp hdigits) hc).symm
        · cases h
  · rintro rfl
    exact readPart?_natDigits n

/-- The parts are the written 32-bit numbers. -/
theorem isPart_iff {ds : List Char} : IsPart ds ↔ ∃ n : UInt32, ds = natDigits n.toNat := by
  constructor
  · intro h
    refine ⟨UInt32.ofNat (ofDigits 0 ds), readPart?_eq_some_iff.mp ?_⟩
    have hlt : ofDigits 0 ds < 4294967296 := Nat.lt_succ_of_le h.bounded
    have hempty : ¬ ds.isEmpty = true := by simpa using h.nonempty
    have hall : ds.all isDigit = true :=
      List.all_eq_true.mpr fun c hc => isDigit_of_isDigit (h.digits c hc)
    have hlead : ¬ (1 < ds.length ∧ ds.head? = some '0') := by
      rintro ⟨hlength, hzero⟩
      rw [h.canonical hzero] at hlength
      exact absurd hlength (by decide)
    rw [readPart?, if_neg (by simp [hempty, hall, hlead]), if_pos hlt]
  · rintro ⟨n, rfl⟩
    refine ⟨natDigits_ne_nil _, fun c hc => Nat.isDigit_of_mem_toDigits (by decide) (by decide) hc,
      fun hzero => ?_, ?_⟩
    · have hn : n.toNat = 0 := by
        false_or_by_contra
        next hpos => exact head?_natDigits_of_pos _ hpos hzero
      rw [hn]
      rfl
    · rw [← ofDigits_eq_ofDigitChars, ofDigits_natDigits]
      exact Nat.le_of_lt_succ n.toNat_lt

theorem read?_eq_some_iff {s : String} {v : Version} : read? s = some v ↔ v.text = s := by
  constructor
  · intro h
    have hs : s.toList = ['.'].intercalate (splitParts s.toList) := by
      rw [splitParts_eq_splitOn, List.intercalate_splitOn]
    apply String.toList_injective
    rw [hs, toList_text]
    rw [read?] at h
    split at h
    · next x y hparts =>
        rw [hparts]
        simp only [Option.bind_eq_bind, Option.bind_eq_some_iff, readPart?_eq_some_iff] at h
        obtain ⟨major, rfl, minor, rfl, h⟩ := h
        cases h
        simp
    · next x y z hparts =>
        rw [hparts]
        simp only [Option.bind_eq_bind, Option.bind_eq_some_iff, readPart?_eq_some_iff] at h
        obtain ⟨major, rfl, minor, rfl, patch, rfl, h⟩ := h
        cases h
        simp
    · cases h
  · rintro rfl
    exact read?_text v

/-- The texts of the grammar are those of versions. -/
theorem isText_iff {s : String} : IsText s ↔ ∃ v : Version, v.text = s := by
  constructor
  · rintro ⟨parts, hlength, hparts, rfl⟩
    have hnumbers : ∀ p ∈ parts, ∃ n : UInt32, p = natText n.toNat := by
      intro p hp
      obtain ⟨n, hn⟩ := isPart_iff.mp (hparts p hp)
      refine ⟨n, String.toList_injective ?_⟩
      rw [hn, natText, String.toList_ofList]
    rcases hlength with hlength | hlength
    · obtain ⟨x, y, rfl⟩ := List.length_eq_two.mp hlength
      simp only [List.forall_mem_cons] at hnumbers
      obtain ⟨⟨major, rfl⟩, ⟨minor, rfl⟩, -⟩ := hnumbers
      refine ⟨⟨major, minor, none⟩, String.toList_injective ?_⟩
      simp [text]
    · obtain ⟨x, y, z, rfl⟩ := List.length_eq_three.mp hlength
      simp only [List.forall_mem_cons] at hnumbers
      obtain ⟨⟨major, rfl⟩, ⟨minor, rfl⟩, ⟨patch, rfl⟩, -⟩ := hnumbers
      refine ⟨⟨major, minor, some patch⟩, String.toList_injective ?_⟩
      simp [text]
  · rintro ⟨⟨major, minor, patch?⟩, rfl⟩
    have hpart (n : UInt32) : IsPart (natText n.toNat).toList :=
      isPart_iff.mpr ⟨n, String.toList_ofList⟩
    cases patch? with
    | none =>
        refine ⟨[natText major.toNat, natText minor.toNat], .inl rfl, ?_, ?_⟩
        · simp [hpart]
        · apply String.toList_injective
          simp [text]
    | some patch =>
        refine ⟨[natText major.toNat, natText minor.toNat, natText patch.toNat], .inr rfl, ?_, ?_⟩
        · simp [hpart]
        · apply String.toList_injective
          simp [text]

/-- **Versions are read exactly.** The texts that are read are those of the grammar; what is read
from one is the version that is written as it; every other text is refused, and the refusal
names it. -/
theorem ofText_exact (s : String) :
    ((∃ v, ofText s = .ok v) ↔ IsText s) ∧ (∀ v, ofText s = .ok v ↔ v.text = s) ∧
      ∀ err, ofText s = .error err ↔ ¬ IsText s ∧ err = .invalidVersion s := by
  have hok (v : Version) : ofText s = .ok v ↔ v.text = s := by
    rw [← read?_eq_some_iff, ofText]
    cases read? s <;> simp
  have hread : (∃ v, ofText s = .ok v) ↔ IsText s := by
    rw [isText_iff]
    exact exists_congr hok
  refine ⟨hread, hok, fun err => ?_⟩
  rw [← hread, ofText]
  cases read? s with
  | none => simp [eq_comm]
  | some v => simp

/-! ## Order -/

/-- The full order refines the order of releases. -/
theorem release_le_of_rank_le {v w : Version} (h : v.rank ≤ w.rank) : v.release ≤ w.release := by
  simp only [rank] at h
  have hv := (v.patch?.getD 0).toNat_lt
  have hw := (w.patch?.getD 0).toNat_lt
  omega

/-- The same numbers make the same release. -/
theorem release_eq_of_isExactly {v w : Version} (h : v.isExactly w = true) :
    v.release = w.release := by
  have h : v.rank = w.rank := of_decide_eq_true h
  exact Nat.le_antisymm (release_le_of_rank_le (Nat.le_of_eq h))
    (release_le_of_rank_le (Nat.le_of_eq h.symm))

end Skew.Version
