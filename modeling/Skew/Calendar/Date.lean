/-!
# Civil dates

Days are counted from 0001-01-01 of the proleptic Gregorian calendar, day 0, and
every integer is the number of exactly one day. A year is found from a day by a
division that is off by one at most, a month by taking month lengths off.
-/

namespace Skew.Calendar

structure Date where
  year : Int
  month : Nat
  day : Nat
deriving DecidableEq, Repr

def isLeap (y : Int) : Bool := y % 4 = 0 && (y % 100 ≠ 0 || y % 400 = 0)

def monthLengths (y : Int) : List Nat :=
  [31, if isLeap y then 29 else 28, 31, 30, 31, 30, 31, 31, 30, 31, 30, 31]

/-- The number of 1 January of a year. -/
def yearStart (y : Int) : Int :=
  let z := y - 1
  365 * z + z / 4 - z / 100 + z / 400

/-- The year that holds a day. -/
def yearOfDay (n : Int) : Int :=
  let y := 400 * n / 146097 + 1
  if n < yearStart y then y - 1 else if yearStart (y + 1) ≤ n then y + 1 else y

/-- Takes whole months off a count of days; gives the months taken and the days left. -/
def splitMonths : List Nat → Nat → Nat × Nat
  | [], d => (0, d)
  | len :: rest, d =>
    if d < len then (0, d)
    else
      let (m, r) := splitMonths rest (d - len)
      (m + 1, r)

def Date.ofDay (n : Int) : Date :=
  let y := yearOfDay n
  let (m, d) := splitMonths (monthLengths y) (n - yearStart y).toNat
  ⟨y, m + 1, d + 1⟩

/-- Days of the months before the given one. -/
def daysBefore (y : Int) (month : Nat) : Nat :=
  ((monthLengths y).take (month - 1)).foldl (· + ·) 0

def Date.toDay (d : Date) : Int := yearStart d.year + daysBefore d.year d.month + (d.day - 1 : Nat)

/-- The month exists and has that day. -/
def Date.Valid (d : Date) : Prop :=
  1 ≤ d.month ∧ d.month ≤ 12 ∧ 1 ≤ d.day ∧ d.day ≤ ((monthLengths d.year)[d.month - 1]?).getD 0

instance (d : Date) : Decidable d.Valid := by unfold Date.Valid; infer_instance

/-- A year's days end where the next year's begin. -/
theorem yearStart_succ (y : Int) :
    yearStart (y + 1) = yearStart y + (if isLeap y then 366 else 365) := by
  simp only [yearStart, isLeap, Bool.and_eq_true, Bool.or_eq_true, decide_eq_true_eq, ne_eq]
  split <;> omega

/-- The day lies in the year found for it. -/
theorem yearOfDay_spec (n : Int) :
    yearStart (yearOfDay n) ≤ n ∧ n < yearStart (yearOfDay n + 1) := by
  simp only [yearOfDay]
  split
  · next h => simp only [yearStart] at *; omega
  · next h =>
    split
    · next h' => simp only [yearStart] at *; omega
    · next h' => simp only [yearStart] at *; omega

end Skew.Calendar
