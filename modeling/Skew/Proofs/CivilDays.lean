import Mathlib.Algebra.Ring.Nat
import Mathlib.Data.Int.Init
import Skew.Calendar.Instant

/-!
# Days counted by the calendar

The calendar by its rule alone: after each day of a month comes the next, after the last day of a
month the first of the next month, after the last day of a year the first of January
(`Date.next`). Counting on and back from 1 January 1970 by this rule gives every day its date
(`Date.OnDay`).

The closed forms agree with the count. A date that exists has one number more than the date
before it (`Date.toDay_next`) and is the date of its number (`Date.ofDay_toDay`), so a date is
counted on the day of its number and on no other (`Date.onDay_iff`).
-/

namespace Skew.Calendar

/-! ## Years and months -/

theorem sum_monthLengths (y : Int) :
    (monthLengths y).sum = if isLeap y then 366 else 365 := by
  unfold monthLengths
  split <;> rfl

theorem yearStart_add_one (y : Int) :
    yearStart (y + 1) = yearStart y + (monthLengths y).sum := by
  rw [yearStart_succ, sum_monthLengths]
  split <;> rfl

theorem yearStart_le {y z : Int} (h : y ≤ z) : yearStart y ≤ yearStart z := by
  simp only [yearStart]
  omega

/-- The year of a day is the one that it lies in. -/
theorem yearOfDay_eq {y n : Int} (hlo : yearStart y ≤ n) (hhi : n < yearStart (y + 1)) :
    yearOfDay n = y := by
  obtain ⟨hstart, hend⟩ := yearOfDay_spec n
  rcases Int.lt_trichotomy (yearOfDay n) y with hlt | heq | hlt
  · have hle := yearStart_le (Int.add_one_le_of_lt hlt)
    omega
  · exact heq
  · have hle := yearStart_le (Int.add_one_le_of_lt hlt)
    omega

/-- The day within its year is one of the days that the months hold. -/
theorem dayOfYear_lt (n : Int) :
    (n - yearStart (yearOfDay n)).toNat < (monthLengths (yearOfDay n)).sum := by
  obtain ⟨hlo, hhi⟩ := yearOfDay_spec n
  rw [yearStart_add_one] at hhi
  omega

/-- Taking months off a count of days that they hold: the month exists, the rest is
a day of it, and together with the months before it makes the count. -/
theorem splitMonths_spec : ∀ {lens : List Nat} {d : Nat}, d < lens.sum →
    (∃ len, lens[(splitMonths lens d).1]? = some len ∧ (splitMonths lens d).2 < len) ∧
      (lens.take (splitMonths lens d).1).sum + (splitMonths lens d).2 = d
  | [], d, h => by simp at h
  | len :: rest, d, h => by
      rw [splitMonths]
      by_cases hd : d < len
      · simp [hd]
      · rw [List.sum_cons] at h
        have hrest : d - len < rest.sum := by omega
        obtain ⟨⟨l, hl, hr⟩, hsum⟩ := splitMonths_spec hrest
        rw [if_neg hd]
        refine ⟨⟨l, by simpa using hl, hr⟩, ?_⟩
        simp only [List.take_succ_cons, List.sum_cons]
        omega

/-- Whole months and a day of the month after them are told apart again. -/
theorem splitMonths_sum {lens : List Nat} {i len d : Nat} (hi : lens[i]? = some len)
    (hd : d < len) : splitMonths lens ((lens.take i).sum + d) = (i, d) := by
  induction lens generalizing i with
  | nil => cases hi
  | cons l lens ih =>
      rw [splitMonths]
      cases i with
      | zero =>
          obtain rfl : l = len := Option.some.inj hi
          simp [hd]
      | succ i =>
          have hrest := ih hi
          rw [List.take_succ_cons, List.sum_cons, Nat.add_assoc, if_neg (by omega),
            Nat.add_sub_cancel_left, hrest]

theorem bounds_of_mem_monthLengths (y : Int) : ∀ n ∈ monthLengths y, 1 ≤ n ∧ n ≤ 31 := by
  unfold monthLengths
  split <;> decide

namespace Date

/-! ## The rule of the calendar -/

def monthLength (d : Date) : Nat := ((monthLengths d.year)[d.month - 1]?).getD 0

/-- The day after. -/
def next (d : Date) : Date :=
  if d.day < d.monthLength then ⟨d.year, d.month, d.day + 1⟩
  else if d.month < 12 then ⟨d.year, d.month + 1, 1⟩
  else ⟨d.year + 1, 1, 1⟩

/-- Days are counted on and back from 1 January 1970. -/
inductive OnDay : Int → Date → Prop
  | epoch : OnDay 0 ⟨1970, 1, 1⟩
  | after {n : Int} {d : Date} (h : OnDay n d) : OnDay (n + 1) d.next
  | before {n : Int} {d : Date} (hd : d.Valid) (h : OnDay (n + 1) d.next) : OnDay n d

/-! ## Numbers of dates -/

theorem valid_ofDay (n : Int) : (ofDay n).Valid := by
  obtain ⟨⟨len, hlen, hlt⟩, -⟩ := splitMonths_spec (dayOfYear_lt n)
  have hidx := (List.getElem?_eq_some_iff.mp hlen).1
  have h12 : (monthLengths (yearOfDay n)).length = 12 := rfl
  simp only [Valid, ofDay, Nat.add_sub_cancel, hlen, Option.getD_some]
  omega

/-- Every day is the number of its date. -/
theorem toDay_ofDay (n : Int) : (ofDay n).toDay = n := by
  obtain ⟨-, hsum⟩ := splitMonths_spec (dayOfYear_lt n)
  obtain ⟨hlo, -⟩ := yearOfDay_spec n
  simp only [toDay, ofDay, daysBefore, Nat.add_sub_cancel, ← List.sum_eq_foldl_nat]
  omega

theorem daysBefore_eq (y : Int) (month : Nat) :
    daysBefore y month = ((monthLengths y).take (month - 1)).sum := by
  rw [daysBefore, List.sum_eq_foldl_nat]

theorem getElem?_monthLength {d : Date} (h : d.Valid) :
    (monthLengths d.year)[d.month - 1]? = some d.monthLength := by
  obtain ⟨hfirst, hlast, -, -⟩ := h
  have hlength : (monthLengths d.year).length = 12 := rfl
  have hmonth : d.month - 1 < (monthLengths d.year).length := by omega
  rw [monthLength, List.getElem?_eq_getElem hmonth, Option.getD_some]

theorem Valid.day_le {d : Date} (h : d.Valid) : d.day ≤ 31 :=
  Nat.le_trans h.2.2.2
    (bounds_of_mem_monthLengths d.year _ (List.mem_of_getElem? (getElem?_monthLength h))).2

/-- Every month has a first day. -/
theorem valid_first (y : Int) {month : Nat} (h : month < 12) : Valid ⟨y, month + 1, 1⟩ := by
  have hlength : month < (monthLengths y).length := h
  refine ⟨Nat.succ_pos _, h, Nat.le_refl 1, ?_⟩
  rw [Nat.add_sub_cancel, List.getElem?_eq_getElem hlength, Option.getD_some]
  exact (bounds_of_mem_monthLengths y _ (List.getElem_mem hlength)).1

/-- The days of a month stand before the month after it. -/
theorem sum_take_month {d : Date} (h : d.Valid) :
    ((monthLengths d.year).take d.month).sum = daysBefore d.year d.month + d.monthLength := by
  have hmonth : d.month = d.month - 1 + 1 := by
    have := h.1
    omega
  rw [daysBefore_eq, hmonth, List.take_add_one, Nat.add_sub_cancel, getElem?_monthLength h,
    Option.toList_some, List.sum_append, List.sum_singleton]

theorem daysBefore_add_monthLength_le {d : Date} (h : d.Valid) :
    daysBefore d.year d.month + d.monthLength ≤ (monthLengths d.year).sum := by
  have hsplit := congrArg List.sum (List.take_append_drop d.month (monthLengths d.year))
  rw [List.sum_append, sum_take_month h] at hsplit
  omega

/-- A date that exists is the date of its number. -/
theorem ofDay_toDay {d : Date} (h : d.Valid) : ofDay d.toDay = d := by
  have hday : d.day - 1 < d.monthLength := by
    have := h.2.2.1
    have : d.day ≤ d.monthLength := h.2.2.2
    omega
  have hyear : yearOfDay d.toDay = d.year := by
    have hsum := daysBefore_add_monthLength_le h
    refine yearOfDay_eq ?_ ?_
    · rw [toDay]
      omega
    · rw [yearStart_add_one, toDay]
      omega
  have hrest : (d.toDay - yearStart d.year).toNat =
      ((monthLengths d.year).take (d.month - 1)).sum + (d.day - 1) := by
    rw [toDay, daysBefore_eq]
    omega
  have hsplit := splitMonths_sum (getElem?_monthLength h) hday
  obtain ⟨hmonth, -, hfirst, -⟩ := h
  rw [ofDay, hyear, hrest, hsplit]
  simp only [Nat.sub_add_cancel hmonth, Nat.sub_add_cancel hfirst]

theorem valid_next {d : Date} (h : d.Valid) : d.next.Valid := by
  obtain ⟨hfirst, hlast, hday, hlength⟩ := h
  rw [next]
  split
  · next hlt => exact ⟨hfirst, hlast, Nat.succ_pos _, hlt⟩
  · split
    · next hlt => exact valid_first d.year hlt
    · exact valid_first (d.year + 1) (Nat.succ_pos 11)

/-- The day after has the number after. -/
theorem toDay_next {d : Date} (h : d.Valid) : d.next.toDay = d.toDay + 1 := by
  obtain ⟨hfirst, hlast, hday, hlength⟩ := id h
  have hmonth := sum_take_month h
  rw [next]
  split
  · simp only [toDay]
    omega
  · next hshort =>
    have hend : d.day = d.monthLength := Nat.le_antisymm hlength (Nat.le_of_not_lt hshort)
    split
    · simp only [toDay, daysBefore_eq d.year (d.month + 1), Nat.add_sub_cancel, hmonth]
      omega
    · next hdecember =>
        have hwhole : (monthLengths d.year).take d.month = monthLengths d.year :=
          List.take_of_length_le (Nat.le_of_not_lt hdecember)
        have hjanuary : daysBefore (d.year + 1) 1 = 0 := rfl
        rw [hwhole] at hmonth
        simp only [toDay, yearStart_add_one, hmonth, hjanuary]
        omega

theorem next_ofDay (n : Int) : (ofDay n).next = ofDay (n + 1) := by
  have hvalid := valid_ofDay n
  rw [← ofDay_toDay (valid_next hvalid), toDay_next hvalid, toDay_ofDay]

/-- Every day is counted with the date of its number. -/
theorem onDay_ofDay (n : Int) : OnDay n (ofDay (n + epochDay)) := by
  induction n using Int.induction_on with
  | zero => exact .epoch
  | succ n ih =>
      rw [Int.add_right_comm, ← next_ofDay]
      exact .after ih
  | pred n ih =>
      refine .before (valid_ofDay _) ?_
      rw [next_ofDay, Int.add_right_comm, Int.sub_add_cancel]
      exact ih

/-- A date is counted on the day of its number. -/
theorem onDay_iff {n : Int} {d : Date} : OnDay n d ↔ d.Valid ∧ d.toDay = n + epochDay := by
  constructor
  · intro h
    induction h with
    | epoch => exact ⟨by decide, by decide⟩
    | after h ih => exact ⟨valid_next ih.1, by rw [toDay_next ih.1, ih.2]; omega⟩
    | before hd h ih =>
        have := ih.2
        rw [toDay_next hd] at this
        exact ⟨hd, by omega⟩
  · rintro ⟨hd, hn⟩
    rw [← ofDay_toDay hd, hn]
    exact onDay_ofDay n

end Date

end Skew.Calendar
