import ChangeCapture.Timestamp
import Mathlib.Tactic.IntervalCases
import Mathlib.Tactic.Linarith

/-!
# The calendar

Days are counted from an epoch, and written as dates. The Gregorian calendar repeats after an era of
400 years. An era is four centuries, a century 25 times four years, and the years are taken to begin
in March: then a leap day is the last day of its year, and a longer century or era is so by a last
day, too.

## Main definitions

* `Timestamp.IsDate`: a month of the year and a day of that month.

## Main results

* `Timestamp.isDate_dateOf` — the date of a day is one.
* `Timestamp.dayOf_dateOf` — the day is that of its date.
-/

namespace ChangeCapture

namespace Timestamp

/-- Whether a month is one of the year, and a day one of that month. -/
structure IsDate (year : Int) (month day : Nat) : Prop where
  month_pos : 1 ≤ month
  month_le : month ≤ 12
  day_pos : 1 ≤ day
  day_le : day ≤ daysInMonth year month

/-- No month has more than 31 days. -/
theorem daysInMonth_le (year : Int) (month : Nat) : daysInMonth year month ≤ 31 := by
  rw [daysInMonth]
  split_ifs <;> decide

/-! ### Days of an era -/

/-- The year of an era that a day of the era lies in. -/
def yearOfEra (n : Int) : Int :=
  (n - n / 1460 + n / 36524 - n / 146096) / 365

/-- Where a day of an era lies in its year. -/
def dayOfYear (n : Int) : Int :=
  n - (365 * yearOfEra n + yearOfEra n / 4 - yearOfEra n / 100)

/-- Whether a year of an era, the years beginning in March, ends with a leap day. -/
def EndsWithLeapDay (y : Int) : Prop :=
  (y + 1) % 4 = 0 ∧ ((y + 1) % 100 ≠ 0 ∨ (y + 1) % 400 = 0)

/-- **A day of an era**: its century, the four years it lies in, which of these, and its day. Only
the last of four years may have 366 days, and the last one of a century only at the end of the
era. -/
structure Parts (n c q y d : Int) : Prop where
  sum : n = 36524 * c + 1461 * q + 365 * y + d
  century : 0 ≤ c ∧ c ≤ 3
  four : 0 ≤ q ∧ q ≤ 24
  year : 0 ≤ y ∧ y ≤ 3
  day : 0 ≤ d ∧ d ≤ 365
  leap : d = 365 → y = 3 ∧ (q = 24 → c = 3)

/-- Every day of an era has its parts. -/
theorem exists_parts {n : Int} (h₀ : 0 ≤ n) (h : n < 146097) : ∃ c q y d, Parts n c q y d := by
  obtain ⟨c, r, hn, hc, hr, hlast⟩ : ∃ c r : Int, n = 36524 * c + r ∧ (0 ≤ c ∧ c ≤ 3) ∧
      (0 ≤ r ∧ r ≤ 36524) ∧ (r = 36524 → c = 3) :=
    ⟨min (n / 36524) 3, n - 36524 * min (n / 36524) 3, by omega, by omega, by omega, by omega⟩
  clear h₀ h
  obtain ⟨q, t, hr', hq, ht⟩ : ∃ q t : Int, r = 1461 * q + t ∧ (0 ≤ q ∧ q ≤ 24) ∧
      (0 ≤ t ∧ t ≤ 1460) := ⟨r / 1461, r % 1461, by omega, by omega, by omega⟩
  obtain ⟨y, d, ht', hy, hd, hleap⟩ : ∃ y d : Int, t = 365 * y + d ∧ (0 ≤ y ∧ y ≤ 3) ∧
      (0 ≤ d ∧ d ≤ 365) ∧ (d = 365 → y = 3) :=
    ⟨min (t / 365) 3, t - 365 * min (t / 365) 3, by omega, by omega, by omega, by omega⟩
  exact ⟨c, q, y, d, by omega, hc, hq, hy, hd, fun h365 => ⟨hleap h365, by omega⟩⟩

namespace Parts

variable {n c q y d : Int}

/-- The year of an era is told by its parts. -/
theorem yearOfEra_eq (h : Parts n c q y d) : yearOfEra n = 100 * c + 4 * q + y := by
  obtain ⟨rfl, hc, hq, hy, hd, hleap⟩ := h
  -- The first division takes a day from the last days of four years, and none from their first.
  obtain ⟨e, he, hfirst, hlast⟩ : ∃ e, (36524 * c + 1461 * q + 365 * y + d) / 1460 =
      25 * c + q + e ∧ (d = 0 → e = 0) ∧ (0 ≤ e ∧ e ≤ 1) ∧ (d = 365 → e = 1) :=
    ⟨(24 * c + q + 365 * y + d) / 1460, by omega, by omega, by omega, by omega⟩
  -- Only the last day of an era is beyond its last century.
  have hcenturies : (36524 * c + 1461 * q + 365 * y + d) / 36524 -
      (36524 * c + 1461 * q + 365 * y + d) / 146096 = c := by
    obtain hbefore | hend : 1461 * q + 365 * y + d ≤ 36523 ∨ q = 24 ∧ y = 3 ∧ d = 365 := by omega
    · have hzero : (36524 * c + 1461 * q + 365 * y + d) / 146096 = 0 := by omega
      omega
    · obtain ⟨rfl, rfl, rfl⟩ := hend
      obtain rfl := (hleap rfl).2 rfl
      rfl
  have hsum : 36524 * c + 1461 * q + 365 * y + d - (25 * c + q + e) +
      (36524 * c + 1461 * q + 365 * y + d) / 36524 -
      (36524 * c + 1461 * q + 365 * y + d) / 146096 = 365 * (100 * c + 4 * q + y) + (d - e) := by
    linarith
  rw [yearOfEra, he, hsum]
  clear hsum hcenturies he
  omega

/-- The day of the year is told by its parts. -/
theorem dayOfYear_eq (h : Parts n c q y d) : dayOfYear n = d := by
  have hyear := h.yearOfEra_eq
  obtain ⟨rfl, hc, hq, hy, -⟩ := h
  have hfours : (100 * c + 4 * q + y) / 4 = 25 * c + q := by omega
  have hhundreds : (100 * c + 4 * q + y) / 100 = c := by omega
  rw [dayOfYear, hyear, hfours, hhundreds]
  omega

end Parts

/-- **The year and the day of the year** of a day of an era. -/
theorem yearOfEra_spec {n : Int} (h₀ : 0 ≤ n) (h : n < 146097) :
    (0 ≤ yearOfEra n ∧ yearOfEra n < 400) ∧ (0 ≤ dayOfYear n ∧ dayOfYear n ≤ 365) ∧
      (dayOfYear n = 365 → EndsWithLeapDay (yearOfEra n)) := by
  obtain ⟨c, q, y, d, hparts⟩ := exists_parts h₀ h
  rw [hparts.yearOfEra_eq, hparts.dayOfYear_eq]
  obtain ⟨-, hc, hq, hy, hd, hleap⟩ := hparts
  refine ⟨by omega, hd, fun h365 => ?_⟩
  obtain ⟨rfl, hera⟩ := hleap h365
  rw [EndsWithLeapDay]
  omega

/-! ### Months -/

/-- The month that a day of a year lies in, counted from March. -/
def monthFromMarch (d : Int) : Int :=
  (5 * d + 2) / 153

/-- A month counted from March, as one of the calendar. -/
def monthOf (m : Int) : Int :=
  if m < 10 then m + 3 else m - 9

/-- The date of a day, step by step. -/
theorem dateOf_eq (day : Int) :
    let n := (day + 719468) % 146097
    let m := monthFromMarch (dayOfYear n)
    dateOf day =
      (yearOfEra n + (day + 719468) / 146097 * 400 + (if monthOf m ≤ 2 then 1 else 0),
        (monthOf m).toNat, (dayOfYear n - (153 * m + 2) / 5 + 1).toNat) :=
  rfl

/-- The months before February are as long as the days up to them say. -/
theorem daysInMonth_monthOf {m : Int} (h₀ : 0 ≤ m) (h : m < 11) (year : Int) :
    (daysInMonth year (monthOf m).toNat : Int) = (153 * (m + 1) + 2) / 5 - (153 * m + 2) / 5 := by
  interval_cases m <;> rfl

/-- A year that ends with a leap day has it in a leap year of the calendar. -/
theorem isLeapYear_of_endsWithLeapDay {y : Int} (h : EndsWithLeapDay y) (era : Int) :
    isLeapYear (y + era * 400 + 1) = true := by
  obtain ⟨hfour, hcentury⟩ := h
  simp only [isLeapYear, Bool.and_eq_true, Bool.or_eq_true, beq_iff_eq, bne_iff_ne]
  omega

/-- A day of a year lies in one of its months. -/
theorem isDate_of_dayOfYear {y d : Int} (hd : 0 ≤ d ∧ d ≤ 365)
    (hleap : d = 365 → EndsWithLeapDay y) (era : Int) :
    IsDate (y + era * 400 + (if monthOf (monthFromMarch d) ≤ 2 then 1 else 0))
      (monthOf (monthFromMarch d)).toNat (d - (153 * monthFromMarch d + 2) / 5 + 1).toNat := by
  obtain ⟨m, hm⟩ : ∃ m, monthFromMarch d = m := ⟨_, rfl⟩
  have hbounds : 153 * m ≤ 5 * d + 2 ∧ 5 * d + 2 < 153 * m + 153 := by
    rw [monthFromMarch] at hm
    omega
  have hmonth : 1 ≤ monthOf m ∧ monthOf m ≤ 12 := by
    rw [monthOf]
    split <;> omega
  rw [hm]
  refine ⟨by omega, by omega, by omega, ?_⟩
  by_cases hfebruary : m = 11
  · subst hfebruary
    change _ ≤ if isLeapYear (y + era * 400 + 1) = true then 29 else 28
    split
    · omega
    · rename_i hno
      have hshort : d ≠ 365 := fun h365 =>
        hno (isLeapYear_of_endsWithLeapDay (hleap h365) era)
      omega
  · have hlength := daysInMonth_monthOf (m := m) (by omega) (by omega)
      (y + era * 400 + if monthOf m ≤ 2 then 1 else 0)
    omega

/-- **The date of a day is a date.** -/
theorem isDate_dateOf (day : Int) :
    IsDate (dateOf day).1 (dateOf day).2.1 (dateOf day).2.2 := by
  obtain ⟨-, hday, hleap⟩ :=
    yearOfEra_spec (n := (day + 719468) % 146097) (by omega) (by omega)
  rw [dateOf_eq]
  exact isDate_of_dayOfYear hday hleap _

/-- The day of a date, from the parts of the date. -/
theorem dayOf_eq {y e m d year : Int} {month day : Nat} (hy : 0 ≤ y ∧ y < 400)
    (hyear : (if month ≤ 2 then year - 1 else year) = y + e * 400)
    (hmonth : ((month : Int) + 9) % 12 = m) (hday : (day : Int) = d - (153 * m + 2) / 5 + 1) :
    dayOf year month day = e * 146097 + (365 * y + y / 4 - y / 100 + d) - 719468 := by
  have hera : (y + e * 400) / 400 = e := by omega
  have hyearOfEra : (y + e * 400) % 400 = y := by omega
  simp only [dayOf, hyear, hmonth, hday, hera, hyearOfEra]
  omega

/-- **The day is that of its date.** -/
theorem dayOf_dateOf (day : Int) :
    dayOf (dateOf day).1 (dateOf day).2.1 (dateOf day).2.2 = day := by
  obtain ⟨n, hn⟩ : ∃ n, (day + 719468) % 146097 = n := ⟨_, rfl⟩
  obtain ⟨hyear, hday, -⟩ := yearOfEra_spec (n := n) (by omega) (by omega)
  obtain ⟨m, hm⟩ : ∃ m, monthFromMarch (dayOfYear n) = m := ⟨_, rfl⟩
  have hbounds : 0 ≤ m ∧ m ≤ 11 ∧ (153 * m + 2) / 5 ≤ dayOfYear n := by
    rw [monthFromMarch] at hm
    omega
  have hmonth : 1 ≤ monthOf m ∧ (monthOf m + 9) % 12 = m := by
    rw [monthOf]
    split <;> omega
  rw [dateOf_eq, hn]
  dsimp only
  rw [hm, dayOf_eq (y := yearOfEra n) (e := (day + 719468) / 146097) (m := m)
    (d := dayOfYear n) hyear (by split_ifs <;> omega) (by omega) (by omega), dayOfYear]
  omega

end Timestamp

end ChangeCapture
