import Skew.Proofs.CanonicalText
import Skew.Proofs.CivilDays

/-!
# Times with an offset

What a text with an offset says is told without its reader. The grammar (`Stamp.WrittenAs`) gives
the parts that the text shows, and the parts denote an instant by the calendar's own count of days
and by the clock, with the offset taken off (`Stamp.Denotes`). The reader agrees: it yields the
instant that is denoted, and nothing if the parts are no time
(`Stamp.WrittenAs.read?_eq_some_iff`).

A text is read piece by piece from its front, with the rest of the text as a parameter of each
lemma. The local form reads the same pieces, and is left with the offset at the end.
-/

namespace Skew.Calendar

open Skew.Decimal

/-! ## The texts -/

/-- Digits of fixed width that write a number, with zeros in front. -/
structure Numeral (width : Nat) (ds : List Char) (n : Nat) : Prop where
  length : ds.length = width
  digits : ∀ c ∈ ds, c.isDigit = true
  value : Nat.ofDigitChars 10 ds 0 = n

instance (width : Nat) (ds : List Char) (n : Nat) : Decidable (Numeral width ds n) :=
  decidable_of_iff
    (ds.length = width ∧ ds.all Char.isDigit = true ∧ Nat.ofDigitChars 10 ds 0 = n)
    ⟨fun ⟨hlength, hdigits, hvalue⟩ => ⟨hlength, List.all_eq_true.mp hdigits, hvalue⟩,
      fun h => ⟨h.length, List.all_eq_true.mpr h.digits, h.value⟩⟩

/-- A fraction is nothing, or a point and digits. -/
inductive FractionText : List Char → List Char → Prop
  | none : FractionText [] []
  | digits {ds : List Char} (hne : ds ≠ []) (hds : ∀ c ∈ ds, c.isDigit = true) :
      FractionText ds ('.' :: ds)

/-- An offset in seconds is a letter for none, or a sign, hours and minutes. East is ahead. -/
inductive OffsetText : Int → List Char → Prop
  | universal {c : Char} (hc : c = 'Z' ∨ c = 'z') : OffsetText 0 [c]
  | east {hs ms : List Char} {h m : Nat} (hh : Numeral 2 hs h) (hm : Numeral 2 ms m)
      (hhour : h ≤ 23) (hminute : m ≤ 59) :
      OffsetText (h * 3600 + m * 60) ('+' :: (hs ++ ':' :: ms))
  | west {c : Char} (hc : c = '-' ∨ c = '\u2212') {hs ms : List Char} {h m : Nat}
      (hh : Numeral 2 hs h) (hm : Numeral 2 ms m) (hhour : h ≤ 23) (hminute : m ≤ 59) :
      OffsetText (-(h * 3600 + m * 60)) (c :: (hs ++ ':' :: ms))

/-- The parts of a time: a date and a clock, the digits of a fraction of the second, and by how
many seconds the clock is ahead of UTC. -/
structure Stamp where
  date : Date
  hour : Nat
  minute : Nat
  second : Nat
  fraction : List Char
  offset : Int

/-- A fraction in nanoseconds. What it says beyond them, no instant can hold. -/
def fractionNanos (ds : List Char) : Nat :=
  Nat.ofDigitChars 10 ds 0 * 1000000000 / 10 ^ ds.length

namespace Stamp

/-- The text shows the parts, the year first and the offset last. -/
structure Pieces (p : Stamp) (n : Nat) (y mo d : List Char) (mark : Char)
    (h mi se f z : List Char) : Prop where
  year_eq : p.date.year = n
  year : Numeral 4 y n
  month : Numeral 2 mo p.date.month
  day : Numeral 2 d p.date.day
  mark : mark = 'T' ∨ mark = 't' ∨ mark = ' '
  hour : Numeral 2 h p.hour
  minute : Numeral 2 mi p.minute
  second : Numeral 2 se p.second
  fraction : FractionText p.fraction f
  offset : OffsetText p.offset z

def WrittenAs (p : Stamp) (s : String) : Prop :=
  ∃ n y mo d mark h mi se f z, p.Pieces n y mo d mark h mi se f z ∧
    s.toList =
      y ++ '-' :: (mo ++ '-' :: (d ++ mark :: (h ++ ':' :: (mi ++ ':' :: (se ++ (f ++ z))))))

/-- The instant at which a clock that is so far ahead shows the parts. A sixtieth second is a leap
second: the second before it, and a thousand million nanoseconds more. -/
structure Denotes (p : Stamp) (t : Instant) : Prop where
  hour : p.hour ≤ 23
  minute : p.minute ≤ 59
  second : p.second ≤ 60
  seconds : ∃ n, Date.OnDay n p.date ∧ t.seconds + p.offset =
    n * 86400 + p.hour * 3600 + p.minute * 60 + min p.second 59
  nanos : t.nanos = fractionNanos p.fraction + if p.second = 60 then 1000000000 else 0

end Stamp

/-! ## Reading the pieces -/

theorem read_then {α β : Type} {read : Option α} {a : α} {next : α → Option β} {r : Option β}
    (hread : read = some a) (hnext : next a = r) : (read >>= next) = r := by
  rw [hread]
  exact hnext

theorem readChar?_cons (c : Char) (rest : List Char) : readChar? c (c :: rest) = some rest :=
  if_pos rfl

theorem trimStart_digits {ds : List Char} (hne : ds ≠ []) (hds : ∀ c ∈ ds, c.isDigit = true)
    (rest : List Char) : Text.trimStart (ds ++ rest) = ds ++ rest := by
  obtain ⟨c, ds, rfl⟩ := List.exists_cons_of_ne_nil hne
  have hblank : Text.isBlank c = false := Text.isBlank_of_isDigit (hds c List.mem_cons_self)
  rw [Text.trimStart, List.cons_append, List.dropWhile_cons, hblank, if_neg Bool.false_ne_true]

namespace Numeral

variable {width n : Nat} {ds : List Char}

/-- Fewer digits may be asked for than there are. -/
theorem readDigits? (h : Numeral width ds n) {least : Nat} (hleast : least ≤ width)
    (rest : List Char) : readDigits? least width (ds ++ rest) = some (n, rest) := by
  have htake : (ds ++ rest).take width = ds := List.take_left' h.length
  have hwhile : ds.takeWhile isDigit = ds := List.takeWhile_eq_self_iff.mpr h.digits
  have hlength : ¬ ds.length < least := by
    rw [h.length]
    omega
  rw [Calendar.readDigits?, htake, hwhile, if_neg hlength, List.drop_left,
    ofDigits_eq_ofDigitChars, h.value]

theorem ne_nil (h : Numeral width ds n) (hwidth : 0 < width) : ds ≠ [] := by
  rintro rfl
  exact absurd h.length (Nat.ne_of_lt hwidth)

theorem readPair? (h : Numeral 2 ds n) (rest : List Char) :
    readPair? (ds ++ rest) = some (n, rest) := by
  rw [Calendar.readPair?, trimStart_digits (h.ne_nil (by decide)) h.digits]
  exact h.readDigits? (by decide) rest

theorem readYear? (h : Numeral 4 ds n) (rest : List Char) :
    readYear? (ds ++ rest) = some ((n : Int), rest) := by
  have hread := h.readDigits? (by decide : 1 ≤ 4) rest
  rw [Calendar.readYear?, trimStart_digits (h.ne_nil (by decide)) h.digits]
  obtain ⟨c, cs, rfl⟩ := List.exists_cons_of_ne_nil (h.ne_nil (by decide))
  have hdigit : c.isDigit = true := h.digits c List.mem_cons_self
  split
  · next r hr =>
      cases hr
      exact absurd hdigit (by decide)
  · next r hr =>
      cases hr
      exact absurd hdigit (by decide)
  · rw [hread]
    rfl

/-- Padded digits are numerals. -/
theorem padded (hwidth : 0 < width) (h : n < 10 ^ width) :
    Numeral width (padded width n).toList n where
  length := length_padded hwidth h
  digits _ := isDigit_of_mem_padded
  value := ofDigits_padded width n

end Numeral

/-- What follows the seconds is neither a digit nor a point. -/
theorem OffsetText.head {offset : Int} {z : List Char} (h : OffsetText offset z) :
    ∃ c cs, z = c :: cs ∧ isDigit c = false ∧ c ≠ '.' := by
  cases h with
  | universal hc => rcases hc with rfl | rfl <;> exact ⟨_, _, rfl, by decide, by decide⟩
  | east => exact ⟨_, _, rfl, by decide, by decide⟩
  | west hc => rcases hc with rfl | rfl <;> exact ⟨_, _, rfl, by decide, by decide⟩

/-- Behind a sign, hours and minutes are read. -/
theorem readOffset?_signed {c : Char} {sign : Int}
    (hsign : c = '+' ∧ sign = 1 ∨ (c = '-' ∨ c = '\u2212') ∧ sign = -1) {hs ms : List Char}
    {h m : Nat} (hh : Numeral 2 hs h) (hm : Numeral 2 ms m) (hhour : h ≤ 23) (hminute : m ≤ 59) :
    readOffset? (c :: (hs ++ ':' :: ms)) = some (sign * (h * 3600 + m * 60 : Nat), []) := by
  have hend : readDigits? 2 2 ms = some (m, []) := by
    simpa using hm.readDigits? (Nat.le_refl 2) []
  rcases hsign with ⟨rfl, rfl⟩ | ⟨rfl | rfl, rfl⟩ <;>
    refine read_then rfl (read_then (hh.readDigits? (Nat.le_refl 2) _) ?_) <;>
    refine read_then (readChar?_cons ':' _) (read_then hend ?_) <;>
    exact if_pos ⟨hhour, hminute⟩

theorem OffsetText.readOffset? {offset : Int} {z : List Char} (h : OffsetText offset z) :
    readOffset? z = some (offset, []) := by
  cases h with
  | universal hc => rcases hc with rfl | rfl <;> rfl
  | east hh hm hhour hminute =>
      rw [readOffset?_signed (.inl ⟨rfl, rfl⟩) hh hm hhour hminute]
      simp
  | west hc hh hm hhour hminute =>
      rw [readOffset?_signed (.inr ⟨hc, rfl⟩) hh hm hhour hminute]
      simp

/-! ## Fractions -/

theorem ofDigitChars_lt {ds : List Char} (h : ∀ c ∈ ds, c.isDigit = true) :
    Nat.ofDigitChars 10 ds 0 < 10 ^ ds.length := by
  induction ds with
  | nil => exact Nat.one_pos
  | cons c ds ih =>
      obtain ⟨hc, hds⟩ := List.forall_mem_cons.mp h
      have hdigit : c.toNat - 48 + 1 ≤ 10 := by
        have := (isDigit_iff.mp hc).2
        omega
      calc Nat.ofDigitChars 10 (c :: ds) 0
          = 10 ^ ds.length * (c.toNat - 48) + Nat.ofDigitChars 10 ds 0 := by
            rw [Nat.ofDigitChars_cons, Nat.ofDigitChars_eq_ofDigitChars_zero, Nat.mul_zero,
              Nat.zero_add]
            rfl
        _ < 10 ^ ds.length * (c.toNat - 48) + 10 ^ ds.length := Nat.add_lt_add_left (ih hds) _
        _ ≤ 10 ^ ds.length * 10 := Nat.mul_le_mul_left _ hdigit

/-- The first nine digits count, and fewer are filled up with zeros. -/
theorem shiftDecimal_take {ds : List Char} (h : ∀ c ∈ ds, c.isDigit = true) :
    shiftDecimal (ofDigits 0 (ds.take 9)) ((9 - (ds.take 9).length : Nat) : Int) =
      fractionNanos ds := by
  rw [shiftDecimal, Int.toNat_natCast, ofDigits_eq_ofDigitChars, fractionNanos]
  rcases Nat.le_total ds.length 9 with hle | hle
  · have hpow : (1000000000 : Nat) = Nat.pow 10 (9 - ds.length) * 10 ^ ds.length :=
      (Nat.pow_sub_mul_pow 10 hle).symm
    rw [List.take_of_length_le hle, hpow, ← Nat.mul_assoc,
      Nat.mul_div_cancel _ (Nat.pow_pos (by decide))]
  · have hrest := ofDigitChars_lt fun c hc => h c (List.mem_of_mem_drop hc (i := 9))
    have hsplit : Nat.ofDigitChars 10 ds 0 = 10 ^ (ds.drop 9).length *
        Nat.ofDigitChars 10 (ds.take 9) 0 + Nat.ofDigitChars 10 (ds.drop 9) 0 := by
      rw [← Nat.ofDigitChars_eq_ofDigitChars_zero, ← Nat.ofDigitChars_append,
        List.take_append_drop]
    have hlength : (ds.take 9).length = 9 := List.length_take_of_le hle
    have hpow : (10 : Nat) ^ ds.length = 10 ^ (ds.drop 9).length * 1000000000 := by
      rw [List.length_drop, show (1000000000 : Nat) = 10 ^ 9 from rfl, ← Nat.pow_add,
        Nat.sub_add_cancel hle]
    rw [hlength, Nat.sub_self, hpow, Nat.mul_div_mul_right _ _ (by decide), hsplit,
      Nat.mul_add_div (Nat.pow_pos (by decide)), Nat.div_eq_of_lt hrest]
    exact Nat.mul_one _

@[simp] theorem fractionNanos_nil : fractionNanos [] = 0 := rfl

theorem fractionNanos_lt {ds : List Char} (h : ∀ c ∈ ds, c.isDigit = true) :
    fractionNanos ds < 1000000000 := by
  rw [fractionNanos, Nat.div_lt_iff_lt_mul (Nat.pow_pos (by decide)), Nat.mul_comm]
  exact Nat.mul_lt_mul_of_pos_left (ofDigitChars_lt h) (by decide)

theorem FractionText.digits_of {ds f : List Char} (h : FractionText ds f) :
    ∀ c ∈ ds, c.isDigit = true := by
  cases h with
  | none => exact List.forall_mem_nil _
  | digits _ hds => exact hds

theorem FractionText.readFraction? {ds f : List Char} (h : FractionText ds f) {c : Char}
    {rest : List Char} (hdigit : isDigit c = false) (hpoint : c ≠ '.') :
    readFraction? (f ++ c :: rest) = some (fractionNanos ds, c :: rest) := by
  cases h with
  | none =>
      rw [List.nil_append, Calendar.readFraction?]
      · rfl
      · rintro s ⟨⟩
        exact hpoint rfl
  | digits hne hds =>
      have htake : (ds ++ c :: rest).takeWhile isDigit = ds :=
        List.takeWhile_append_of_stop hds fun _ h => by cases h; exact hdigit
      have hdrop : (ds ++ c :: rest).dropWhile isDigit = c :: rest := by
        rw [List.dropWhile_append_of_pos (p := isDigit) hds, List.dropWhile_cons, hdigit,
          if_neg Bool.false_ne_true]
      have hempty : ¬ ds.isEmpty = true := by simpa using hne
      rw [List.cons_append, Calendar.readFraction?, htake, hdrop, if_neg hempty,
        shiftDecimal_take hds]

/-! ## Reading the whole -/

namespace Stamp

variable {p : Stamp} {s : String}

/-- The parts are read in their order and put together. -/
theorem WrittenAs.readOffsetForm? (hp : p.WrittenAs s) :
    readOffsetForm? s.toList = Instant.ofParts? p.date p.hour p.minute p.second
      (fractionNanos p.fraction) p.offset := by
  obtain ⟨n, y, mo, d, mark, h, mi, se, f, z, hpieces, hs⟩ := hp
  obtain ⟨c, cs, rfl, hdigit, hpoint⟩ := hpieces.offset.head
  have hpair {ds : List Char} {n : Nat} (h : Numeral 2 ds n) (rest : List Char) :
      readDigits? 2 2 (ds ++ rest) = some (n, rest) := h.readDigits? (Nat.le_refl 2) rest
  have hmark (rest : List Char) : (readChar? 'T' (mark :: rest) <|> readChar? 't' (mark :: rest) <|>
      readChar? ' ' (mark :: rest)) = some rest := by
    rcases hpieces.mark with rfl | rfl | rfl <;> rfl
  have hdate : (⟨n, p.date.month, p.date.day⟩ : Date) = p.date := by rw [← hpieces.year_eq]
  rw [hs]
  refine read_then (hpieces.year.readDigits? (Nat.le_refl 4) _) ?_
  refine read_then (readChar?_cons '-' _) (read_then (hpair hpieces.month _) ?_)
  refine read_then (readChar?_cons '-' _) (read_then (hpair hpieces.day _) ?_)
  refine read_then (hmark _) (read_then (hpair hpieces.hour _) ?_)
  refine read_then (readChar?_cons ':' _) (read_then (hpair hpieces.minute _) ?_)
  refine read_then (readChar?_cons ':' _) (read_then (hpair hpieces.second _) ?_)
  refine read_then (hpieces.fraction.readFraction? hdigit hpoint) ?_
  refine read_then hpieces.offset.readOffset? ?_
  rw [← hdate]
  rfl

/-- The local form is left with the offset, which it does not know. -/
theorem WrittenAs.readLocalForm? (hp : p.WrittenAs s) : readLocalForm? s.toList = none := by
  obtain ⟨n, y, mo, d, mark, h, mi, se, f, z, hpieces, hs⟩ := hp
  obtain ⟨c, cs, rfl, hdigit, hpoint⟩ := hpieces.offset.head
  rw [hs]
  refine read_then (hpieces.year.readYear? _) ?_
  refine read_then (readChar?_cons '-' _) (read_then (hpieces.month.readPair? _) ?_)
  refine read_then (readChar?_cons '-' _) (read_then (hpieces.day.readPair? _) ?_)
  by_cases hmark : mark = 'T'
  · subst hmark
    refine read_then (readChar?_cons 'T' _) (read_then (hpieces.hour.readPair? _) ?_)
    refine read_then (readChar?_cons ':' _) (read_then (hpieces.minute.readPair? _) ?_)
    refine read_then (readChar?_cons ':' _) (read_then (hpieces.second.readPair? _) ?_)
    exact read_then (hpieces.fraction.readFraction? hdigit hpoint) rfl
  · have hnone : readChar? 'T' (mark :: (h ++ ':' :: (mi ++ ':' :: (se ++ (f ++ c :: cs))))) =
        none := if_neg hmark
    dsimp only
    rw [hnone]
    rfl

/-- Parts are put together exactly if they are a time, and to the instant that they denote. -/
theorem ofParts?_eq_some_iff (hlo : 0 ≤ p.date.year) (hhi : p.date.year ≤ 9999) {t : Instant} :
    Instant.ofParts? p.date p.hour p.minute p.second (fractionNanos p.fraction) p.offset =
      some t ↔ p.Denotes t := by
  have hclock (h : p.second ≤ 60) : (if p.second = 60 then 59 else p.second) = min p.second 59 := by
    split <;> omega
  rw [Instant.ofParts?]
  constructor
  · intro h
    split at h
    · next htime =>
        obtain ⟨hvalid, -, -, hhour, hminute, hsecond⟩ := htime
        obtain rfl := Option.some.inj h
        have hday : Date.OnDay (p.date.toDay - epochDay) p.date :=
          Date.onDay_iff.mpr ⟨hvalid, (Int.sub_add_cancel _ _).symm⟩
        refine ⟨hhour, hminute, hsecond, ⟨_, hday, ?_⟩, rfl⟩
        simp only [hclock hsecond]
        omega
    · cases h
  · rintro ⟨hhour, hminute, hsecond, ⟨n, hday, hseconds⟩, hnanos⟩
    obtain ⟨hvalid, hnumber⟩ := Date.onDay_iff.mp hday
    have hyear : minYear ≤ p.date.year ∧ p.date.year ≤ maxYear := by
      unfold minYear maxYear
      omega
    rw [if_pos ⟨hvalid, hyear.1, hyear.2, hhour, hminute, hsecond⟩]
    obtain ⟨seconds, nanos⟩ := t
    refine congrArg some (congrArg₂ Instant.mk ?_ hnanos.symm)
    simp only at hseconds
    rw [hclock hsecond]
    omega

/-- **A text with an offset is read as what it denotes.** -/
theorem WrittenAs.read?_eq_some_iff (hp : p.WrittenAs s) {t : Instant} :
    Instant.read? s = some t ↔ p.Denotes t := by
  have hyear : 0 ≤ p.date.year ∧ p.date.year ≤ 9999 := by
    obtain ⟨n, y, mo, d, mark, h, mi, se, f, z, hpieces, -⟩ := hp
    have hlt := ofDigitChars_lt hpieces.year.digits
    rw [hpieces.year.value, hpieces.year.length] at hlt
    rw [hpieces.year_eq]
    omega
  rw [Instant.read?, hp.readOffsetForm?, hp.readLocalForm?, Option.orElse_eq_orElse,
    Option.orElse_eq_or, Option.or_none]
  exact ofParts?_eq_some_iff hyear.1 hyear.2

end Stamp

end Skew.Calendar
