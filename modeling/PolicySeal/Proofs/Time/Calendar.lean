import Mathlib.Algebra.Ring.Nat
import PolicySeal.Time.Instant
/-
  PolicySeal.Proofs.Time.Calendar — days are counted forward and back without a loss.

  A day lies in the year that is found for it (`yearOfDay_spec`), and in the month
  (`inMonths_spec`): the days before the month and the day in it make up the day of the year.
  So the date of a day is one of the calendar, and its number is that of the day
  (`dayNumber_ofDayNumber`), before 1970 and after, and less than the number of the first day
  of the next year (`dayNumber_lt`). A date of the calendar is in turn the one that is found for
  its number (`ofDayNumber_dayNumber`): a day lies in no other year, and in no other month of it.
  So the reading of a clock tells the instant it is read at (`instant_reading`), and an instant
  the reading (`reading_instant`).
-/

namespace PolicySeal.Time

namespace Date

/-! ## Years -/

/-- The days of a year. -/
def yearLength (year : Int) : Nat := (monthLengths year).sum

theorem yearLength_eq (year : Int) : yearLength year = if isLeap year then 366 else 365 := by
  rw [yearLength, monthLengths]
  split <;> rfl

/-- No month is longer than 31 days. -/
theorem getD_monthLengths_le (year : Int) (i : Nat) : (monthLengths year).getD i 0 ≤ 31 := by
  have hlengths : ∀ length ∈ monthLengths year, length ≤ 31 := by
    rw [monthLengths]
    split <;> decide
  by_cases hi : i < (monthLengths year).length
  · rw [List.getD, List.getElem?_eq_getElem hi]
    exact hlengths _ (List.getElem_mem hi)
  · rw [List.getD, List.getElem?_eq_none (Nat.le_of_not_lt hi)]
    exact Nat.zero_le _

theorem daysToYear_succ (year : Int) : daysToYear (year + 1) = daysToYear year + yearLength year := by
  rw [yearLength_eq]
  split
  · rename_i h
    simp only [isLeap, Bool.and_eq_true, Bool.or_eq_true, beq_iff_eq, bne_iff_ne] at h
    simp only [daysToYear]
    omega
  · rename_i h
    simp only [isLeap, Bool.and_eq_true, Bool.or_eq_true, beq_iff_eq, bne_iff_ne] at h
    simp only [daysToYear]
    omega

theorem daysToYear_mono {a b : Int} (h : a ≤ b) : daysToYear a ≤ daysToYear b := by
  simp only [daysToYear]
  omega

/-- The year that is found is the one that the day lies in. -/
theorem yearOfDay_spec (n : Int) : daysToYear (yearOfDay n) ≤ n ∧ n < daysToYear (yearOfDay n + 1) := by
  -- The estimate is never off by more than one.
  have hlow : daysToYear (400 * n / 146097 - 1) ≤ n := by simp only [daysToYear]; omega
  have hhigh : n < daysToYear (400 * n / 146097 + 1 + 1) := by simp only [daysToYear]; omega
  simp only [yearOfDay]
  generalize 400 * n / 146097 = y at hlow hhigh
  split
  · rename_i h
    exact ⟨hlow, by rwa [Int.sub_add_cancel]⟩
  · rename_i h
    split
    · rename_i hnext
      exact ⟨hnext, hhigh⟩
    · rename_i hnext
      exact ⟨Int.not_lt.mp h, Int.not_le.mp hnext⟩

/-- A day lies in one year only. -/
theorem yearOfDay_eq {year n : Int} (hlow : daysToYear year ≤ n) (hhigh : n < daysToYear (year + 1)) : yearOfDay n = year := by
  obtain ⟨hfirst, hnext⟩ := yearOfDay_spec n
  have hle : ¬ yearOfDay n < year := fun h => by
    have := daysToYear_mono (Int.add_one_le_of_lt h)
    omega
  have hge : ¬ year < yearOfDay n := fun h => by
    have := daysToYear_mono (Int.add_one_le_of_lt h)
    omega
  omega

/-! ## Months -/

theorem foldl_add (ns : List Nat) : ns.foldl Nat.add 0 = ns.sum := List.sum_eq_foldl.symm

/-- The days before the month that is found and the day in it make up the day that was looked for. -/
theorem inMonths_spec {lengths : List Nat} {n : Nat} (month : Nat) (h : n < lengths.sum) : ∃ i day,
    inMonths month lengths n = (month + i, day + 1) ∧ i < lengths.length ∧ day < lengths.getD i 0 ∧
      (lengths.take i).sum + day = n := by
  induction lengths generalizing month n with
  | nil => cases h
  | cons length rest ih =>
    by_cases hday : n < length
    · refine ⟨0, n, ?_, Nat.succ_pos _, hday, Nat.zero_add n⟩
      cases rest with
      | nil => rfl
      | cons => exact if_pos hday
    · rw [List.sum_cons] at h
      obtain ⟨i, day, hin, hi, hlt, hsum⟩ := ih (month + 1) (Nat.sub_lt_left_of_lt_add (Nat.not_lt.mp hday) h)
      have hne : rest ≠ [] := List.ne_nil_of_length_pos (by omega)
      refine ⟨i + 1, day, ?_, Nat.succ_lt_succ hi, hlt, ?_⟩
      · rw [inMonths, if_neg hday, hin, Nat.add_right_comm, Nat.add_assoc]
        exact hne
      · rw [List.take_succ_cons, List.sum_cons]
        omega

/-- In the days of a row of months those of one month are found in that month. -/
theorem inMonths_eq {lengths : List Nat} {i day : Nat} (month : Nat) (h : day < lengths.getD i 0) :
    inMonths month lengths ((lengths.take i).sum + day) = (month + i, day + 1) := by
  induction lengths generalizing month i with
  | nil => simp at h
  | cons length rest ih =>
    cases i with
    | zero =>
      have hday : day < length := h
      cases rest with
      | nil => simp [inMonths]
      | cons => simp [inMonths, hday]
    | succ i =>
      have hday : day < rest.getD i 0 := h
      have hne : rest ≠ [] := by
        rintro rfl
        simp at hday
      have hnot : ¬ length + (rest.take i).sum + day < length := by omega
      have hrest : length + (rest.take i).sum + day - length = (rest.take i).sum + day := by omega
      rw [List.take_succ_cons, List.sum_cons, inMonths, if_neg hnot, hrest, ih (month + 1) hday, Nat.add_right_comm,
        Nat.add_assoc]
      exact hne

theorem sum_take_add_getD_le (ns : List Nat) (i : Nat) : (ns.take i).sum + ns.getD i 0 ≤ ns.sum := by
  induction ns generalizing i with
  | nil => simp
  | cons n ns ih =>
    cases i with
    | zero => simp
    | succ i =>
      have := ih i
      simp only [List.take_succ_cons, List.sum_cons, List.getD_cons_succ]
      omega

/-! ## Dates -/

/-- A date lies before the first day of the next year. -/
theorem dayNumber_lt {d : Date} (h : d.isValid = true) : d.dayNumber < daysToYear (d.year + 1) - epochDay := by
  simp only [isValid, Bool.and_eq_true, decide_eq_true_iff] at h
  obtain ⟨⟨-, hone⟩, hday⟩ := h
  have hsum := sum_take_add_getD_le (monthLengths d.year) (d.month - 1)
  rw [dayNumber, foldl_add, daysToYear_succ, yearLength]
  omega

/-- The date of a day: its year, and the month and the day that the day of the year falls on. -/
theorem ofDayNumber_spec (n : Int) : ∃ month day,
    ofDayNumber n = ⟨yearOfDay (n + epochDay), month + 1, day + 1⟩ ∧
      month < 12 ∧ day < (monthLengths (yearOfDay (n + epochDay))).getD month 0 ∧
      daysToYear (yearOfDay (n + epochDay)) + ((monthLengths (yearOfDay (n + epochDay))).take month).sum + day
        = n + epochDay := by
  obtain ⟨hlow, hhigh⟩ := yearOfDay_spec (n + epochDay)
  rw [daysToYear_succ] at hhigh
  have hday : (n + epochDay - daysToYear (yearOfDay (n + epochDay))).toNat < (monthLengths (yearOfDay (n + epochDay))).sum := by
    rw [← yearLength]
    omega
  obtain ⟨i, day, hin, hi, hlt, hsum⟩ := inMonths_spec 1 hday
  refine ⟨i, day, ?_, hi, hlt, by omega⟩
  simp only [ofDayNumber, hin, Nat.add_comm 1 i]

theorem dayNumber_ofDayNumber (n : Int) : (ofDayNumber n).dayNumber = n := by
  obtain ⟨month, day, hdate, -, -, hsum⟩ := ofDayNumber_spec n
  simp only [hdate, dayNumber, Nat.add_sub_cancel, foldl_add]
  omega

/-- A date of the calendar is the one that is found for its number. -/
theorem ofDayNumber_dayNumber {d : Date} (h : d.isValid = true) : ofDayNumber d.dayNumber = d := by
  obtain ⟨year, month, day⟩ := d
  have hbefore : dayNumber ⟨year, month, day⟩ < daysToYear (year + 1) - epochDay := dayNumber_lt h
  simp only [isValid, Bool.and_eq_true, decide_eq_true_iff] at h
  obtain ⟨⟨⟨⟨-, hmonth⟩, -⟩, hday⟩, hlength⟩ := h
  have hnumber : dayNumber ⟨year, month, day⟩ + epochDay
      = daysToYear year + (((monthLengths year).take (month - 1)).sum + (day - 1) : Nat) := by
    simp only [dayNumber, foldl_add]
    omega
  have hyear : yearOfDay (dayNumber ⟨year, month, day⟩ + epochDay) = year := yearOfDay_eq (by omega) (by omega)
  have hin := inMonths_eq 1 (show day - 1 < (monthLengths year).getD (month - 1) 0 by omega)
  have hrest : (dayNumber ⟨year, month, day⟩ + epochDay - daysToYear year).toNat
      = ((monthLengths year).take (month - 1)).sum + (day - 1) := by omega
  simp only [ofDayNumber, hyear, hrest, hin, Nat.sub_add_cancel hday, Nat.add_sub_cancel' hmonth]

theorem isValid_ofDayNumber {n : Int} (hfirst : firstYear ≤ (ofDayNumber n).year) (hlast : (ofDayNumber n).year ≤ lastYear) :
    (ofDayNumber n).isValid = true := by
  obtain ⟨month, day, hdate, hmonth, hday, -⟩ := ofDayNumber_spec n
  rw [hdate] at hfirst hlast ⊢
  simp only [isValid, Bool.and_eq_true, decide_eq_true_iff, Nat.add_sub_cancel]
  exact ⟨⟨⟨⟨⟨hfirst, hlast⟩, Nat.succ_pos _⟩, hmonth⟩, Nat.succ_pos _⟩, hday⟩

theorem month_ofDayNumber_le (n : Int) : (ofDayNumber n).month ≤ 12 := by
  obtain ⟨month, day, hdate, hmonth, -, -⟩ := ofDayNumber_spec n
  rw [hdate]
  exact hmonth

theorem day_ofDayNumber_le (n : Int) : (ofDayNumber n).day ≤ 31 := by
  obtain ⟨month, day, hdate, -, hday, -⟩ := ofDayNumber_spec n
  rw [hdate]
  exact Nat.lt_of_lt_of_le hday (getD_monthLengths_le _ month)

/-- From the first day of 1970 on the year is 1970 or a later one. -/
theorem le_year_ofDayNumber {n : Int} (h : 0 ≤ n) : 1970 ≤ (ofDayNumber n).year := by
  obtain ⟨month, day, hdate, -, -, -⟩ := ofDayNumber_spec n
  have hspec := (yearOfDay_spec (n + epochDay)).2
  rw [hdate]
  simp only [daysToYear, epochDay] at hspec ⊢
  omega

/-- A date from 1970 on is numbered from zero. -/
theorem dayNumber_nonneg {d : Date} (h : 1970 ≤ d.year) : 0 ≤ d.dayNumber := by
  have := daysToYear_mono h
  rw [dayNumber, epochDay]
  omega

/-- A year that is not negative may be counted by a natural number. -/
theorem mk_toNat {d : Date} (h : 0 ≤ d.year) : (⟨d.year.toNat, d.month, d.day⟩ : Date) = d := by
  obtain ⟨year, month, day⟩ := d
  simp only [Int.toNat_of_nonneg h]

end Date

/-! ## Readings -/

/-- A clock shows a time of day. -/
theorem reading_timeOfDay (t : Instant) : t.reading.hour ≤ 23 ∧ t.reading.minute ≤ 59 ∧ t.reading.second ≤ 59 := by
  simp only [Instant.reading]
  omega

/-- What a clock shows at an instant tells the instant. -/
theorem instant_reading (t : Instant) : t.reading.instant = t := by
  obtain ⟨millis⟩ := t
  simp only [Instant.reading, Reading.instant, Date.dayNumber_ofDayNumber]
  congr 1
  omega

/-- Without its part of a second an instant is read as before, to the second. -/
theorem reading_ofSeconds (t : Instant) : (Instant.ofSeconds t.seconds).reading = { t.reading with nanosecond := 0 } := by
  obtain ⟨millis⟩ := t
  have hday : millis / 1000 * 1000 / 86400000 = millis / 86400000 := by omega
  have hrest : (millis / 1000 * 1000 % 86400000).toNat = (millis % 86400000).toNat / 1000 * 1000 := by omega
  simp only [Instant.reading, Instant.ofSeconds, Instant.seconds, hday, hrest, Reading.mk.injEq, true_and]
  omega

/-- A clock at the instant of a reading shows that reading, where it is one to the millisecond. -/
theorem reading_instant {r : Reading} (hdate : r.date.isValid = true) (hhour : r.hour ≤ 23) (hminute : r.minute ≤ 59)
    (hsecond : r.second ≤ 59) (hless : r.nanosecond < 1000000000) (hwhole : r.nanosecond % 1000000 = 0) :
    r.instant.reading = r := by
  obtain ⟨date, hour, minute, second, nanosecond⟩ := r
  simp only at hdate hhour hminute hsecond hless hwhole
  have hday : (Reading.instant ⟨date, hour, minute, second, nanosecond⟩).millis / 86400000 = date.dayNumber := by
    simp only [Reading.instant]
    omega
  have hrest : ((Reading.instant ⟨date, hour, minute, second, nanosecond⟩).millis % 86400000).toNat
      = hour * 3600000 + minute * 60000 + second * 1000 + nanosecond / 1000000 := by
    simp only [Reading.instant]
    omega
  simp only [Instant.reading, hday, hrest, Date.ofDayNumber_dayNumber hdate, Reading.mk.injEq, true_and]
  omega

end PolicySeal.Time
