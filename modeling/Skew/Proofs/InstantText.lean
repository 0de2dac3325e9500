import Skew.Proofs.Stamps

/-!
# Instants read back

The wire text shows the parts of a time in UTC (`Instant.stamp_writtenAs`), and a whole second is
what these parts denote, so it is read back (`Instant.read?_wireText`). Of any other instant the
wire text shows the whole second, and the sixtieth second of a minute stays one. The years are 0
to 9999.

An instant may have a leap second anywhere, but a clock shows one only at the end of a minute.
Elsewhere it shows the second after it, and that is read back (`Instant.wireText_shown`).

A text with an offset gives an instant whose leap second is the last of its minute
(`Stamp.Denotes.proper`), so it goes on through the wire text as well.
-/

namespace Skew.Calendar

open Skew.Decimal

namespace Instant

/-- What the wire form shows exactly: a whole second of the years 0 to 9999, where a
leap second is the sixtieth of its minute. -/
structure Exact (t : Instant) : Prop where
  whole : t.nanos = 0 ∨ t.nanos = 1000000000 ∧ t.seconds % 60 = 59
  year : 0 ≤ t.date.year ∧ t.date.year ≤ 9999

/-- A leap second is at the end of a minute. -/
def Proper (t : Instant) : Prop := t.isLeapSecond → t.seconds % 60 = 59

instance (t : Instant) : Decidable t.Proper :=
  inferInstanceAs (Decidable (t.isLeapSecond → t.seconds % 60 = 59))

/-- What the wire text shows: the whole second, or the one after a leap second within a minute. -/
def shown (t : Instant) : Instant := if t.Proper then t.wholeSecond else ⟨t.seconds + 1, 0⟩

/-- The second as the clock shows it. -/
def clockSecond (t : Instant) : Nat := t.secondOfDay % 60 + if t.isLeapSecond then 1 else 0

/-- The date and the clock in UTC. -/
def stamp (t : Instant) : Stamp :=
  ⟨t.date, t.secondOfDay / 3600, t.secondOfDay / 60 % 60, t.clockSecond, [], 0⟩

variable {t : Instant}

theorem toList_wireText (hyear : 0 ≤ t.date.year ∧ t.date.year ≤ 9999) :
    t.wireText.toList =
      (padded 4 t.date.year.toNat).toList ++ '-' :: ((padded 2 t.date.month).toList ++
      '-' :: ((padded 2 t.date.day).toList ++ 'T' ::
      ((padded 2 (t.secondOfDay / 3600)).toList ++ ':' ::
      ((padded 2 (t.secondOfDay / 60 % 60)).toList ++ ':' ::
      ((padded 2 t.clockSecond).toList ++ ['Z']))))) := by
  simp [wireText, Date.text, yearText, clockText, clockSecond, hyear]

theorem secondOfDay_lt (t : Instant) : t.secondOfDay < 86400 := by
  unfold secondOfDay
  omega

theorem clockSecond_le (t : Instant) : t.clockSecond ≤ 60 := by
  unfold clockSecond
  split <;> omega

theorem stamp_writtenAs (hyear : 0 ≤ t.date.year ∧ t.date.year ≤ 9999) :
    t.stamp.WrittenAs t.wireText := by
  have hvalid : t.date.Valid := Date.valid_ofDay _
  have hmonth := hvalid.2.1
  have hday := hvalid.day_le
  have hlt := t.secondOfDay_lt
  have hsecond := t.clockSecond_le
  refine ⟨t.date.year.toNat, _, _, _, 'T', _, _, _, [], ['Z'], ?_, toList_wireText hyear⟩
  exact
    { year_eq := (Int.toNat_of_nonneg hyear.1).symm
      year := .padded (by decide) (by omega)
      month := .padded (by decide) (by omega)
      day := .padded (by decide) (by omega)
      mark := .inl rfl
      hour := .padded (by decide) (by omega)
      minute := .padded (by decide) (by omega)
      second := .padded (by decide) (by omega)
      fraction := .none
      offset := .universal (.inl rfl) }

/-- A whole second is what its parts denote. -/
theorem stamp_denotes (h : t.Exact) : t.stamp.Denotes t := by
  have hlt := t.secondOfDay_lt
  have hrest : (t.secondOfDay : Int) = t.seconds % 86400 := by
    unfold secondOfDay
    omega
  have hclock : min t.clockSecond 59 = t.secondOfDay % 60 ∧
      t.nanos = if t.clockSecond = 60 then 1000000000 else 0 := by
    rcases h.whole with hnanos | ⟨hnanos, hlast⟩
    · have hsecond : t.clockSecond = t.secondOfDay % 60 := by simp [clockSecond, isLeapSecond, hnanos]
      rw [hsecond, hnanos, if_neg (by omega)]
      omega
    · have hsecond : t.clockSecond = t.secondOfDay % 60 + 1 := by
        simp [clockSecond, isLeapSecond, hnanos]
      rw [hsecond, hnanos, if_pos (by omega)]
      omega
  refine
    { hour := by simp only [stamp]; omega
      minute := by simp only [stamp]; omega
      second := t.clockSecond_le
      seconds := ⟨t.seconds / 86400, Date.onDay_ofDay _, ?_⟩
      nanos := by rw [stamp, fractionNanos_nil, Nat.zero_add]; exact hclock.2 }
  simp only [stamp, hclock.1]
  omega

/-- The wire text of an exact instant denotes it. -/
theorem read?_wireText (h : t.Exact) : read? t.wireText = some t :=
  (stamp_writtenAs h.year).read?_eq_some_iff.mpr (stamp_denotes h)

/-! ## Parts of a second -/

theorem isLeapSecond_wholeSecond (t : Instant) : t.wholeSecond.isLeapSecond = t.isLeapSecond := by
  rw [wholeSecond]
  cases t.isLeapSecond <;> rfl

/-- The wire text shows the whole second. -/
theorem wireText_wholeSecond (t : Instant) : t.wholeSecond.wireText = t.wireText := by
  simp only [wireText, clockText, isLeapSecond_wholeSecond]
  rfl

/-- The second after a leap second within a minute is of the same minute, and the clock shows
it already. -/
theorem wireText_succ (h : ¬ t.Proper) :
    (⟨t.seconds + 1, 0⟩ : Instant).date = t.date ∧
      (⟨t.seconds + 1, 0⟩ : Instant).wireText = t.wireText := by
  obtain ⟨hleap, hwithin⟩ : t.isLeapSecond = true ∧ t.seconds % 60 ≠ 59 :=
    Classical.not_imp.mp h
  have hday : (t.seconds + 1) / 86400 = t.seconds / 86400 := by omega
  have hdate : (⟨t.seconds + 1, 0⟩ : Instant).date = t.date := by rw [date, hday, date]
  have hofDay : (⟨t.seconds + 1, 0⟩ : Instant).secondOfDay = t.secondOfDay + 1 := by
    simp only [secondOfDay]
    omega
  have hsecond : t.secondOfDay % 60 ≠ 59 := by
    simp only [secondOfDay]
    omega
  have hhour : (t.secondOfDay + 1) / 3600 = t.secondOfDay / 3600 := by omega
  have hminute : (t.secondOfDay + 1) / 60 % 60 = t.secondOfDay / 60 % 60 := by omega
  have hclock : (t.secondOfDay + 1) % 60 = t.secondOfDay % 60 + 1 := by omega
  have hnone : (⟨t.seconds + 1, 0⟩ : Instant).isLeapSecond = false := rfl
  refine ⟨hdate, ?_⟩
  simp only [wireText, clockText, hdate, hofDay, hhour, hminute, hclock, hleap, hnone,
    Bool.false_eq_true, if_false, if_true, Nat.add_zero]

theorem shown_of_proper (h : t.Proper) : t.shown = t.wholeSecond := if_pos h

theorem wireText_shown (t : Instant) : t.shown.wireText = t.wireText := by
  rw [shown]
  split
  · exact t.wireText_wholeSecond
  · next h => exact (wireText_succ h).2

theorem exact_shown (hyear : 0 ≤ t.date.year ∧ t.date.year ≤ 9999) : t.shown.Exact := by
  rw [shown]
  split
  · next h =>
      refine ⟨?_, hyear⟩
      cases hleap : t.isLeapSecond with
      | false => exact .inl (by simp [wholeSecond, hleap])
      | true => exact .inr ⟨by simp [wholeSecond, hleap], h hleap⟩
  · next h => exact ⟨.inl rfl, (wireText_succ h).1 ▸ hyear⟩

/-- What the wire text shows is read. -/
theorem read?_wireText_shown (hyear : 0 ≤ t.date.year ∧ t.date.year ≤ 9999) :
    read? t.wireText = some t.shown := by
  rw [← wireText_shown]
  exact read?_wireText (exact_shown hyear)

end Instant

/-! ## Texts with an offset -/

theorem OffsetText.whole_minutes {offset : Int} {z : List Char} (h : OffsetText offset z) :
    offset % 60 = 0 := by
  cases h <;> omega

/-- An offset is of whole minutes, so that a leap second is the last of its minute in UTC too. -/
theorem Stamp.Denotes.proper {p : Stamp} {s : String} {t : Instant} (hp : p.WrittenAs s)
    (h : p.Denotes t) : t.Proper := by
  obtain ⟨n, y, mo, d, mark, hs, mi, se, f, z, hpieces, -⟩ := hp
  have hfraction := fractionNanos_lt hpieces.fraction.digits_of
  have hoffset := hpieces.offset.whole_minutes
  obtain ⟨-, -, -, ⟨n, -, hseconds⟩, hnanos⟩ := h
  intro hleap
  have hnanos' : 1000000000 ≤ t.nanos := by simpa [Instant.isLeapSecond] using hleap
  have hsixty : p.second = 60 := by
    by_contra hne
    rw [hnanos, if_neg hne] at hnanos'
    omega
  omega

/-- **The wire form and the reader agree.** What is read back of an instant is what its wire text
shows, and shows the same again. A text with an offset is read as the instant that it denotes, to
the nanosecond, and as no other, and this instant is read back to the second. -/
theorem Instant.wire_round_trip :
    (∀ t : Instant, 0 ≤ t.date.year → t.date.year ≤ 9999 →
      read? t.wireText = some t.shown ∧ (read? t.wireText).map wireText = some t.wireText) ∧
    ∀ (p : Stamp) (s : String), p.WrittenAs s → ∀ t : Instant,
      (read? s = some t ↔ p.Denotes t) ∧
      (read? s = some t → 0 ≤ t.date.year → t.date.year ≤ 9999 →
        read? t.wireText = some t.wholeSecond) := by
  constructor
  · intro t hlo hhi
    have hread := read?_wireText_shown ⟨hlo, hhi⟩
    refine ⟨hread, ?_⟩
    rw [hread, Option.map_some, wireText_shown]
  · intro p s hp t
    refine ⟨hp.read?_eq_some_iff, fun hread hlo hhi => ?_⟩
    have hdenotes := hp.read?_eq_some_iff.mp hread
    rw [read?_wireText_shown ⟨hlo, hhi⟩, shown_of_proper (hdenotes.proper hp)]

/-! A leap second between years: on a clock one hour ahead the new year has begun. -/

/-- Half of the leap second at the end of 2016 has passed. -/
def Instant.leap2016 : Instant := ⟨1483228799, 1500000000⟩

def Stamp.leapAhead : Stamp := ⟨⟨2017, 1, 1⟩, 0, 59, 60, ['5'], 3600⟩

theorem Stamp.leapAhead_writtenAs : leapAhead.WrittenAs "2017-01-01T00:59:60.5+01:00" :=
  ⟨2017, ['2', '0', '1', '7'], ['0', '1'], ['0', '1'], 'T', ['0', '0'], ['5', '9'], ['6', '0'],
    ['.', '5'], ['+', '0', '1', ':', '0', '0'],
    { year_eq := rfl
      year := by decide
      month := by decide
      day := by decide
      mark := .inl rfl
      hour := by decide
      minute := by decide
      second := by decide
      fraction := .digits (by decide) (List.all_eq_true.mp rfl)
      offset := @OffsetText.east ['0', '1'] ['0', '0'] 1 0 (by decide) (by decide) (by decide)
        (by decide) }, rfl⟩

theorem Stamp.leapAhead_denotes : leapAhead.Denotes Instant.leap2016 where
  hour := by decide
  minute := by decide
  second := by decide
  seconds := ⟨17167, Date.onDay_iff.mpr ⟨by decide, by decide⟩, by decide⟩
  nanos := by decide

theorem Instant.leap2016_read :
    read? "2017-01-01T00:59:60.5+01:00" = some leap2016 ∧
    leap2016.wireText = "2016-12-31T23:59:60Z" ∧
    read? leap2016.wireText = some ⟨1483228799, 1000000000⟩ ∧
    (read? leap2016.wireText).map wireText = some leap2016.wireText := by
  obtain ⟨hwire, htexts⟩ := wire_round_trip
  obtain ⟨hiff, hagain⟩ := htexts _ _ Stamp.leapAhead_writtenAs leap2016
  have hread := hiff.mpr Stamp.leapAhead_denotes
  exact ⟨hread, rfl, hagain hread (by decide) (by decide),
    (hwire leap2016 (by decide) (by decide)).2⟩

/-- A leap second within a minute does not stay that leap second, and of two times that differ by
less than a nanosecond only one is read. -/
theorem Instant.not_read_back :
    ((⟨4, 1000000000⟩ : Instant).wholeSecond = ⟨4, 1000000000⟩ ∧
      (⟨4, 1000000000⟩ : Instant).wireText = "1970-01-01T00:00:05Z" ∧
      read? "1970-01-01T00:00:05Z" = some ⟨5, 0⟩) ∧
    read? "2026-01-02T03:04:05.0000000001Z" = some ⟨1767323045, 0⟩ ∧
      read? "2026-01-02T03:04:05Z" = some ⟨1767323045, 0⟩ :=
  ⟨⟨rfl, rfl, rfl⟩, rfl, rfl⟩

end Skew.Calendar
