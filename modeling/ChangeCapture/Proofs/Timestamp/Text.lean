import ChangeCapture.Proofs.Timestamp.Calendar
import Mathlib.Data.Nat.Digits.Defs

/-!
# The round trip of timestamps

A timestamp is read leniently and written in one way. What is read is an instant: a day whose year
is in range, a second of that day, and nanoseconds, which go beyond a second only in the last second
of a minute. Every instant is read back from its text. So reading what was written of a timestamp
that was read gives the same timestamp.

## Main definitions

* `Timestamp.IsInstant`: an instant that a timestamp may hold.

## Main results

* `Timestamp.parse?_text` — an instant is read back from its text.
* `Timestamp.isInstant_of_parse?` — what is read is an instant.
-/

namespace ChangeCapture

namespace Timestamp

/-- **An instant that a timestamp may hold.** Its date is in range, its second is one of the day, and
a leap second follows the last second of a minute. -/
structure IsInstant (t : Timestamp) : Prop where
  year : firstYear ≤ (dateOf t.day).1 ∧ (dateOf t.day).1 ≤ lastYear
  second : t.second < 86400
  nano : t.nano < 1000000000 ∨ t.second % 60 = 59 ∧ t.nano < 2000000000

/-! ### Decimal digits -/

/-- Whether characters are decimal digits. -/
def AreDigits (cs : List Char) : Prop :=
  ∀ c ∈ cs, c.isDigit = true

/-- Whether no digit comes first. -/
def EndsDigits (cs : List Char) : Prop :=
  ∀ c ∈ cs.head?, c.isDigit = false

variable {width n : Nat} {ds rest : List Char}

/-- A digit is no blank, and no sign. -/
theorem isBlank_of_isDigit {c : Char} (h : c.isDigit = true) :
    isBlank c = false ∧ c ≠ '-' ∧ c ≠ '+' := by
  have hr : 48 ≤ c.toNat ∧ c.toNat ≤ 57 := by
    simpa [Char.isDigit, UInt32.le_iff_toNat_le] using h
  refine ⟨?_, fun hc => ?_, fun hc => ?_⟩
  · simp only [isBlank, Bool.or_eq_false_iff, Bool.and_eq_false_iff, decide_eq_false_iff_not,
      beq_eq_false_iff_ne]
    omega
  · subst hc
    cases h
  · subst hc
    cases h

/-- The value of digits is below the power of ten of their number. -/
theorem valueOf_lt (h : AreDigits ds) : valueOf ds < 10 ^ ds.length := by
  suffices general : ∀ m, ds.foldl (fun n c => n * 10 + (c.toNat - 48)) m <
      (m + 1) * 10 ^ ds.length by simpa [valueOf] using general 0
  induction ds with
  | nil => simp
  | cons c ds ih =>
    intro m
    have hc : c.toNat ≤ 57 := by
      have hdigit := h c List.mem_cons_self
      simp only [Char.isDigit, Bool.and_eq_true, decide_eq_true_eq, UInt32.le_iff_toNat_le] at hdigit
      exact hdigit.2
    have hrest := ih (fun d hd => h d (List.mem_cons_of_mem _ hd)) (m * 10 + (c.toNat - 48))
    rw [List.foldl_cons, List.length_cons, Nat.pow_succ]
    calc _ < (m * 10 + (c.toNat - 48) + 1) * 10 ^ ds.length := hrest
      _ ≤ (m + 1) * 10 * 10 ^ ds.length := Nat.mul_le_mul_right _ (by omega)
      _ = (m + 1) * (10 ^ ds.length * 10) := by ring

/-- A padded number is made of digits. -/
theorem areDigits_padded (width n : Nat) : AreDigits (padded width n) := by
  intro c hc
  rcases List.mem_append.mp hc with hc | hc
  · rw [List.eq_of_mem_replicate hc]
    rfl
  · exact Nat.isDigit_of_mem_toDigits (by decide) (by decide) hc

/-- A padded number is not empty. -/
theorem padded_ne_nil (width n : Nat) : padded width n ≠ [] := by
  intro h
  exact Nat.toDigits_ne_nil (List.append_eq_nil_iff.mp h).2

/-- A number that fits its width is padded to it. -/
theorem length_padded (hw : 0 < width) (hn : n < 10 ^ width) : (padded width n).length = width := by
  have hdigits := Nat.toDigits_length 10 n width hw hn
  simp only [padded, List.length_append, List.length_replicate]
  omega

/-- **The value of a padded number is the number.** -/
theorem valueOf_padded (width n : Nat) : valueOf (padded width n) = n := by
  have hzeros : ∀ k, (List.replicate k '0').foldl (fun n c => n * 10 + (c.toNat - 48)) 0 = 0 := by
    intro k
    induction k with
    | zero => rfl
    | succ k ih => exact ih
  have hvalue : Nat.ofDigitChars 10 (Nat.toDigits 10 n) 0 = n := Nat.ofDigitChars_ten_toDigits
  rw [Nat.ofDigitChars_eq_foldl] at hvalue
  rw [valueOf, padded, List.foldl_append, hzeros]
  simpa only [Nat.mul_comm, show '0'.toNat = 48 from rfl] using hvalue

/-! ### Reading the parts -/

/-- Digits are cut off from what follows, by the width or by a character that is none. -/
theorem takeWhile_take (hd : AreDigits ds) (hw : ds.length ≤ width)
    (hrest : ds.length = width ∨ EndsDigits rest) :
    ((ds ++ rest).take width).takeWhile Char.isDigit = ds := by
  have hnone : (rest.take (width - ds.length)).takeWhile Char.isDigit = [] := by
    rcases hrest with hfull | hends
    · rw [hfull, Nat.sub_self, List.take_zero, List.takeWhile_nil]
    · cases rest with
      | nil => rw [List.take_nil, List.takeWhile_nil]
      | cons c rest =>
        cases width - ds.length with
        | zero => rfl
        | succ k => rw [List.take_succ_cons, List.takeWhile_cons, hends c rfl]; rfl
  rw [List.take_append, List.take_of_length_le hw, List.takeWhile_append_of_pos hd, hnone,
    List.append_nil]

/-- **A number is read up to what follows.** -/
theorem takeNumber_append (hd : AreDigits ds) (hne : ds ≠ []) (hw : ds.length ≤ width)
    (hrest : ds.length = width ∨ EndsDigits rest) :
    takeNumber width (ds ++ rest) = some (valueOf ds, rest) := by
  rw [takeNumber, takeWhile_take hd hw hrest, if_neg (by simpa using hne), List.drop_left]

/-- A padded number starts with a digit. -/
theorem exists_padded_append (width n : Nat) (rest : List Char) :
    ∃ c cs, padded width n ++ rest = c :: cs ∧ c.isDigit = true := by
  obtain ⟨c, cs, hcs⟩ := List.exists_cons_of_ne_nil (padded_ne_nil width n)
  exact ⟨c, cs ++ rest, by rw [hcs, List.cons_append],
    areDigits_padded width n c (by rw [hcs]; exact List.mem_cons_self)⟩

/-- Before a padded number there are no blanks. -/
theorem dropWhile_padded (width n : Nat) (rest : List Char) :
    (padded width n ++ rest).dropWhile isBlank = padded width n ++ rest := by
  obtain ⟨c, cs, heq, hc⟩ := exists_padded_append width n rest
  rw [heq, List.dropWhile_cons_of_neg (by simp [(isBlank_of_isDigit hc).1])]

/-- Two digits are read back. -/
theorem takePart_padded (hn : n < 100) (rest : List Char) :
    takePart (padded 2 n ++ rest) = some (n, rest) := by
  have hlength : (padded 2 n).length = 2 := length_padded (by decide) hn
  rw [takePart, dropWhile_padded, takeNumber_append (areDigits_padded 2 n) (padded_ne_nil 2 n)
    (Nat.le_of_eq hlength) (.inl hlength), valueOf_padded]

/-- A separator is passed. -/
theorem takeSeparator_cons {c : Char} (hc : isBlank c = false) (cs : List Char) :
    takeSeparator c (c :: cs) = some cs := by
  rw [takeSeparator, List.dropWhile_cons_of_neg (by simp [hc])]
  exact if_pos rfl

/-- A number without a sign is a year of four digits at most. -/
theorem takeYear_of_isDigit {c : Char} {cs : List Char} (hc : c.isDigit = true) :
    takeYear (c :: cs) = (takeNumber 4 (c :: cs)).map fun (n, cs) => ((n : Int), cs) := by
  obtain ⟨hblank, hminus, hplus⟩ := isBlank_of_isDigit hc
  rw [takeYear, List.dropWhile_cons_of_neg (by simp [hblank])]
  split
  · rename_i heq
    exact absurd (List.cons.inj heq).1 hminus
  · rename_i heq
    exact absurd (List.cons.inj heq).1 hplus
  · rfl

/-- All digits of a number with a sign are read. -/
theorem takeNumber_padded (n : Nat) (hrest : EndsDigits rest) :
    takeNumber (padded 4 n ++ rest).length (padded 4 n ++ rest) = some (n, rest) := by
  rw [takeNumber_append (areDigits_padded 4 n) (padded_ne_nil 4 n) (by simp) (.inr hrest),
    valueOf_padded]

/-- **A year is read back.** -/
theorem takeYear_yearChars (year : Int) (hrest : EndsDigits rest) :
    takeYear (yearChars year ++ rest) = some (year, rest) := by
  rw [yearChars]
  split
  · rename_i hfour
    rw [Bool.and_eq_true, decide_eq_true_eq, decide_eq_true_eq] at hfour
    have hlength : (padded 4 year.toNat).length = 4 := length_padded (by decide) (by omega)
    obtain ⟨c, cs, heq, hc⟩ := exists_padded_append 4 year.toNat rest
    rw [heq, takeYear_of_isDigit hc, ← heq, takeNumber_append (areDigits_padded 4 _)
      (padded_ne_nil 4 _) (Nat.le_of_eq hlength) (.inl hlength), valueOf_padded, Option.map_some]
    exact congrArg (fun y => some (y, rest)) (Int.toNat_of_nonneg hfour.1)
  · split
    · have hminus : takeYear ('-' :: (padded 4 year.natAbs ++ rest)) =
          (takeNumber (padded 4 year.natAbs ++ rest).length (padded 4 year.natAbs ++ rest)).map
            fun (n, cs) => (-(n : Int), cs) := rfl
      rw [List.cons_append, hminus, takeNumber_padded _ hrest, Option.map_some]
      have hyear : -(year.natAbs : Int) = year := by omega
      exact congrArg (fun y => some (y, rest)) hyear
    · have hplus : takeYear ('+' :: (padded 4 year.toNat ++ rest)) =
          (takeNumber (padded 4 year.toNat ++ rest).length (padded 4 year.toNat ++ rest)).map
            fun (n, cs) => ((n : Int), cs) := rfl
      rw [List.cons_append, hplus, takeNumber_padded _ hrest, Option.map_some]
      have hyear : (year.toNat : Int) = year := by omega
      exact congrArg (fun y => some (y, rest)) hyear

/-- A fraction of some digits is read as so many nanoseconds. -/
theorem takeFraction_padded (hpos : 0 < width) (hw : width ≤ 9) (hn : n < 10 ^ width)
    (hrest : EndsDigits rest) :
    takeFraction ('.' :: (padded width n ++ rest)) = some (n * Nat.pow 10 (9 - width), rest) := by
  have hlength := length_padded hpos hn
  have hdigits := areDigits_padded width n
  have hnone : rest.dropWhile Char.isDigit = rest := by
    cases rest with
    | nil => rfl
    | cons c rest => rw [List.dropWhile_cons_of_neg (by simp [hrest c rfl])]
  rw [takeFraction, takeWhile_take hdigits (by omega) (.inr hrest),
    if_neg (by simpa using padded_ne_nil width n), List.drop_left, hnone, hlength, valueOf_padded]

/-- **Nanoseconds are read back.** -/
theorem takeFraction_fractionChars {nano : Nat} (hn : nano < 1000000000) (rest : List Char) :
    takeFraction (fractionChars nano ++ 'Z' :: rest) = some (nano, 'Z' :: rest) := by
  have hrest : EndsDigits ('Z' :: rest) := by
    intro c hc
    obtain rfl := Option.some.inj hc
    rfl
  rw [fractionChars]
  split
  · rename_i hzero
    rw [hzero]
    rfl
  · split
    · rename_i hmillis
      rw [List.cons_append, takeFraction_padded (by decide) (by decide) (by omega) hrest]
      have hsame : nano / 1000000 * Nat.pow 10 (9 - 3) = nano := by
        change nano / 1000000 * 1000000 = nano
        omega
      rw [hsame]
    · split
      · rename_i hmicros
        rw [List.cons_append, takeFraction_padded (by decide) (by decide) (by omega) hrest]
        have hsame : nano / 1000 * Nat.pow 10 (9 - 6) = nano := by
          change nano / 1000 * 1000 = nano
          omega
        rw [hsame]
      · rw [List.cons_append, takeFraction_padded (by decide) (by decide) (by omega) hrest]
        exact congrArg (fun n => some (n, 'Z' :: rest)) (Nat.mul_one nano)

/-! ### Reading the whole -/

/-- The instant of a day and a time of day in seconds, which may lie before or after that day. -/
def ofTime? (day time : Int) (nano : Nat) : Option Timestamp :=
  let day := day + time / 86400
  if (dateOf day).1 < firstYear || lastYear < (dateOf day).1 then none
  else some ⟨day, (time % 86400).toNat, nano⟩

/-- **A date and a time of day are an instant**, and a second after the last of a minute is a leap
second. -/
theorem ofLocal?_eq {year offset : Int} {month day hour minute second nano : Nat}
    (hyear : firstYear ≤ year ∧ year ≤ lastYear) (hdate : IsDate year month day)
    (hhour : hour ≤ 23) (hminute : minute ≤ 59) (hsecond : second ≤ 60)
    (hoffset : -86400 < offset ∧ offset < 86400) :
    ofLocal? year month day hour minute second nano offset =
      ofTime? (dayOf year month day)
        ((hour : Int) * 3600 + minute * 60 + (min second 59 : Nat) - offset)
        (if second = 60 then nano + 1000000000 else nano) := by
  obtain ⟨hm₁, hm₂, hd₁, hd₂⟩ := hdate
  rw [ofLocal?, if_neg (by simp; omega), if_neg (by simp; omega), if_neg (by simp; omega),
    if_neg (by simp; omega)]
  by_cases hleap : second = 60
  · rw [if_pos hleap, if_pos hleap, hleap]
    rfl
  · rw [if_neg hleap, if_neg hleap, Nat.min_eq_left (by omega)]
    rfl

/-- **The parts of an instant are the instant.** -/
theorem ofLocal?_parts {t : Timestamp} (ht : t.IsInstant) :
    ofLocal? (dateOf t.day).1 (dateOf t.day).2.1 (dateOf t.day).2.2 (t.second / 3600)
      (t.second / 60 % 60) (t.second % 60 + if 1000000000 ≤ t.nano then 1 else 0)
      (if 1000000000 ≤ t.nano then t.nano - 1000000000 else t.nano) 0 = some t := by
  obtain ⟨day, second, nano⟩ := t
  obtain ⟨hyear, hsecond, hnano⟩ := ht
  dsimp only at hyear hsecond hnano ⊢
  have htime : ((second / 3600 : Nat) : Int) * 3600 + (second / 60 % 60 : Nat) * 60 +
      (min (second % 60 + if 1000000000 ≤ nano then 1 else 0) 59 : Nat) - 0 = second := by
    split <;> omega
  have hday : ((second : Nat) : Int) / 86400 = 0 := by omega
  rw [ofLocal?_eq hyear (isDate_dateOf day) (by omega) (by omega) (by split <;> omega) (by decide),
    htime, dayOf_dateOf, ofTime?, hday, Int.add_zero]
  rw [if_neg (by simp; omega), Option.some.injEq, Timestamp.mk.injEq]
  refine ⟨rfl, by omega, ?_⟩
  split_ifs <;> omega

/-- **A date and a time of day are read** from the text that is written of them. -/
theorem parseChars?_parts (year : Int) {month day hour minute second nano : Nat}
    (hmonth : month < 100) (hday : day < 100) (hhour : hour < 100) (hminute : minute < 100)
    (hsecond : second < 100) (hnano : nano < 1000000000) :
    parseChars? (yearChars year ++ '-' :: (padded 2 month ++ '-' :: (padded 2 day ++ 'T' ::
      (padded 2 hour ++ ':' :: (padded 2 minute ++ ':' :: (padded 2 second ++
        (fractionChars nano ++ ['Z']))))))) =
      ofLocal? year month day hour minute second nano 0 := by
  have hdash : ∀ rest, EndsDigits ('-' :: rest) := by
    rintro rest c ⟨⟩
    rfl
  have hdash' : isBlank '-' = false := rfl
  have hcolon : isBlank ':' = false := rfl
  have htime : (decide ('T' = 'T') || decide ('T' = 't') || decide ('T' = ' ')) = true := rfl
  rw [parseChars?, Option.bind_eq_bind, Option.bind_eq_bind, Option.bind_eq_bind,
    takeYear_yearChars _ (hdash _), Option.bind_some]
  dsimp only
  rw [takeSeparator_cons hdash', Option.bind_some, takePart_padded hmonth, Option.bind_some,
    takeSeparator_cons hdash', Option.bind_some, takePart_padded hday, Option.bind_some]
  dsimp only
  rw [if_pos htime, Option.bind_some, takePart_padded hhour, Option.bind_some,
    takeSeparator_cons hcolon, Option.bind_some, takePart_padded hminute, Option.bind_some,
    takeSeparator_cons hcolon, Option.bind_some, takePart_padded hsecond, Option.bind_some,
    takeFraction_fractionChars hnano, Option.bind_some]
  rfl

/-- **An instant is read back from its text.** -/
theorem parse?_text {t : Timestamp} (ht : t.IsInstant) : parse? t.text = some t := by
  have hdate := isDate_dateOf t.day
  have hday : (dateOf t.day).2.2 < 100 := by
    have hlength := daysInMonth_le (dateOf t.day).1 (dateOf t.day).2.1
    have := hdate.day_le
    omega
  have hmonth : (dateOf t.day).2.1 < 100 := Nat.lt_of_le_of_lt hdate.month_le (by decide)
  have hsecond : t.second % 60 + (if 1000000000 ≤ t.nano then 1 else 0) < 100 := by
    split <;> omega
  have hhour : t.second / 3600 < 100 := by
    have := ht.second
    omega
  have hnano : (if 1000000000 ≤ t.nano then t.nano - 1000000000 else t.nano) < 1000000000 := by
    have := ht.nano
    split <;> omega
  have hminute : t.second / 60 % 60 < 100 := by omega
  have hparts := parseChars?_parts (dateOf t.day).1 hmonth hday hhour hminute hsecond hnano
  rw [ofLocal?_parts ht] at hparts
  rw [parse?, text, String.toList_ofList, chars, ← hparts]
  simp

/-! ### What is read -/

/-- A fraction is below a second. -/
theorem lt_of_takeFraction {cs : List Char} {x : Nat × List Char} (h : takeFraction cs = some x) :
    x.1 < 1000000000 := by
  rw [takeFraction.eq_def] at h
  split at h
  · rename_i cs
    dsimp only at h
    split at h
    · cases h
    · obtain rfl := Option.some.inj h
      generalize hds : (cs.take 9).takeWhile Char.isDigit = ds
      have hdigits : AreDigits ds := by
        rw [← hds]
        exact List.all_eq_true.mp List.all_takeWhile
      have hlength : ds.length ≤ 9 := by
        rw [← hds]
        exact (List.takeWhile_prefix _).length_le.trans (List.length_take_le 9 cs)
      change valueOf ds * 10 ^ (9 - ds.length) < 10 ^ 9
      calc valueOf ds * 10 ^ (9 - ds.length) < 10 ^ ds.length * 10 ^ (9 - ds.length) :=
            Nat.mul_lt_mul_of_pos_right (valueOf_lt hdigits) (Nat.pow_pos (by decide))
        _ = 10 ^ 9 := by rw [← Nat.pow_add, Nat.add_sub_cancel' hlength]
  · obtain rfl := Option.some.inj h
    exact Nat.zero_lt_succ _

/-- An offset is one of whole minutes. -/
theorem mod_of_takeOffset {cs : List Char} {x : Int × List Char} (h : takeOffset cs = some x) :
    x.1 % 60 = 0 := by
  rw [takeOffset.eq_def] at h
  dsimp only at h
  have signed : ∀ {sign : Int} {cs : List Char}, (do
      let (hours, cs) ← takePair cs
      let (minutes, cs) ← takePair (cs.dropWhile fun c => c = ':' || isBlank c)
      if 60 ≤ minutes then none
      else some (sign * ((hours : Int) * 3600 + minutes * 60), cs)) = some x → x.1 % 60 = 0 := by
    intro sign cs h
    rw [Option.bind_eq_bind] at h
    obtain ⟨hours, -, h⟩ := Option.bind_eq_some_iff.mp h
    obtain ⟨⟨minutes, rest⟩, -, h⟩ := Option.bind_eq_some_iff.mp h
    dsimp only at h
    split at h
    · cases h
    · obtain rfl := Option.some.inj h
      refine Int.emod_eq_zero_of_dvd (Dvd.dvd.mul_left ?_ sign)
      omega
  split at h
  · obtain rfl := Option.some.inj h
    rfl
  · obtain rfl := Option.some.inj h
    rfl
  · split_ifs at h
    · obtain rfl := Option.some.inj h
      rfl
    · exact signed h
    · exact signed h
  · cases h

/-- A time of day keeps to the limits of an instant. -/
theorem isInstant_of_ofTime? {day time : Int} {nano : Nat} {t : Timestamp}
    (hnano : nano < 1000000000 ∨ time % 60 = 59 ∧ nano < 2000000000)
    (h : ofTime? day time nano = some t) : t.IsInstant := by
  rw [ofTime?] at h
  split at h
  · cases h
  · rename_i hyear
    obtain rfl := Option.some.inj h
    simp only [Bool.or_eq_true, decide_eq_true_eq, not_or, Int.not_lt] at hyear
    exact ⟨hyear, by dsimp only; omega, by dsimp only; omega⟩

/-- A date and a time of day that are an instant keep to the limits of an instant. -/
theorem isInstant_of_ofLocal? {year offset : Int} {month day hour minute second nano : Nat}
    {t : Timestamp} (hnano : nano < 1000000000) (hoffset : offset % 60 = 0)
    (h : ofLocal? year month day hour minute second nano offset = some t) : t.IsInstant := by
  rw [ofLocal?] at h
  split at h
  · cases h
  split at h
  · cases h
  split at h
  · cases h
  split at h
  · cases h
  by_cases hleap : second = 60
  · rw [if_pos hleap] at h
    refine isInstant_of_ofTime? (.inr ?_) h
    omega
  · rw [if_neg hleap] at h
    exact isInstant_of_ofTime? (.inl hnano) h

/-- **What is read is an instant.** -/
theorem isInstant_of_parse? {s : String} {t : Timestamp} (h : parse? s = some t) :
    t.IsInstant := by
  rw [parse?, parseChars?, Option.bind_eq_bind, Option.bind_eq_bind, Option.bind_eq_bind] at h
  obtain ⟨_, -, h⟩ := Option.bind_eq_some_iff.mp h
  obtain ⟨_, -, h⟩ := Option.bind_eq_some_iff.mp h
  obtain ⟨_, -, h⟩ := Option.bind_eq_some_iff.mp h
  obtain ⟨_, -, h⟩ := Option.bind_eq_some_iff.mp h
  obtain ⟨⟨_, cs⟩, -, h⟩ := Option.bind_eq_some_iff.mp h
  dsimp only at h
  cases cs with
  | nil => cases h
  | cons c cs =>
    dsimp only at h
    by_cases hc : (c = 'T' || c = 't' || c = ' ') = true
    · rw [if_pos hc] at h
      obtain ⟨_, -, h⟩ := Option.bind_eq_some_iff.mp h
      obtain ⟨_, -, h⟩ := Option.bind_eq_some_iff.mp h
      obtain ⟨_, -, h⟩ := Option.bind_eq_some_iff.mp h
      obtain ⟨_, -, h⟩ := Option.bind_eq_some_iff.mp h
      obtain ⟨_, -, h⟩ := Option.bind_eq_some_iff.mp h
      obtain ⟨_, -, h⟩ := Option.bind_eq_some_iff.mp h
      obtain ⟨_, hnano, h⟩ := Option.bind_eq_some_iff.mp h
      obtain ⟨_, hoffset, h⟩ := Option.bind_eq_some_iff.mp h
      split at h
      · exact isInstant_of_ofLocal? (lt_of_takeFraction hnano) (mod_of_takeOffset hoffset) h
      · cases h
    · rw [if_neg hc] at h
      cases h

end Timestamp

end ChangeCapture
