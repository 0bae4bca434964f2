import PolicySeal.Der.Primitive
import PolicySeal.Proofs.Time.Calendar
/-
  PolicySeal.Proofs.Der.Timestamp — times are read as they were written.

  The fields of a time are decimal digits of a fixed number (`digits?_digits`), and what a clock
  shows is a time that there is (`seconds?_reading`). So a time comes back in both forms, as long
  as the form can hold its year (`Timestamp.Valid`); and the form that is chosen for an instant
  can (`ofInstant_eq_ok`), which loses its part of a second and nothing else. Such a time is
  before the year 10000 (`Valid.seconds_lt`).
-/

namespace PolicySeal.Der.Timestamp

open PolicySeal.Time

/-! ## Digits -/

theorem digit_byte (n : Nat) : (UInt8.ofNat (0x30 + n % 10)).toNat = 0x30 + n % 10 := by simp; omega

theorem mem_digits {width n : Nat} {b : UInt8} (h : b ∈ digits width n) : 0x30 ≤ b ∧ b ≤ 0x39 := by
  induction width generalizing n with
  | zero => cases h
  | succ width ih =>
    rcases List.mem_append.mp h with h | h
    · exact ih h
    · rw [List.mem_singleton.mp h, UInt8.le_iff_toNat_le, UInt8.le_iff_toNat_le, digit_byte]
      exact ⟨Nat.le_add_right _ _, show 0x30 + n % 10 ≤ 0x39 by omega⟩

theorem length_digits (width n : Nat) : (digits width n).length = width := by
  induction width generalizing n with
  | zero => rfl
  | succ width ih => rw [digits, List.length_append, ih, List.length_singleton]

theorem foldl_digits (width n : Nat) :
    (digits width n).foldl (fun n b => 10 * n + (b.toNat - 0x30)) 0 = n % Nat.pow 10 width := by
  induction width generalizing n with
  | zero => exact (Nat.mod_one n).symm
  | succ width ih =>
    have hpow : Nat.pow 10 (width + 1) = 10 * Nat.pow 10 width := Nat.mul_comm _ _
    rw [digits, List.foldl_append, ih, List.foldl_cons, List.foldl_nil, digit_byte, Nat.add_sub_cancel_left, hpow,
      Nat.mod_mul, Nat.add_comm]

/-- A number is read back from as many digits as it has at most. -/
theorem digits?_digits {width n : Nat} (h : n < Nat.pow 10 width) : digits? (digits width n) = some n := by
  have hall : (digits width n).all (fun b => 0x30 ≤ b && b ≤ 0x39) = true := by
    rw [List.all_eq_true]
    intro b hb
    simp [mem_digits hb]
  rw [digits?, if_pos hall, foldl_digits, Nat.mod_eq_of_lt h]

/-! ## Dates and times of day -/

theorem digits_two {n : Nat} (h : n < 100) : ∃ a b, digits 2 n = [a, b] ∧ digits? [a, b] = some n :=
  ⟨_, _, rfl, digits?_digits (show n < Nat.pow 10 2 from h)⟩

/-- Two digits for each of the five fields are read as these. -/
theorem afterYear?_digits {month day hour minute second : Nat} (year : Nat) (hmonth : month < 100) (hday : day < 100)
    (hhour : hour < 100) (hminute : minute < 100) (hsecond : second < 100) :
    afterYear? year (digits 2 month ++ digits 2 day ++ digits 2 hour ++ digits 2 minute ++ digits 2 second ++ [0x5A])
      = seconds? year month day hour minute second := by
  obtain ⟨_, _, hmonth, hmonth'⟩ := digits_two hmonth
  obtain ⟨_, _, hday, hday'⟩ := digits_two hday
  obtain ⟨_, _, hhour, hhour'⟩ := digits_two hhour
  obtain ⟨_, _, hminute, hminute'⟩ := digits_two hminute
  obtain ⟨_, _, hsecond, hsecond'⟩ := digits_two hsecond
  simp [afterYear?, hmonth, hmonth', hday, hday', hhour, hhour', hminute, hminute', hsecond, hsecond']

section

variable {t : Timestamp}

theorem le_year (t : Timestamp) : 1970 ≤ t.instant.reading.date.year :=
  Date.le_year_ofDayNumber (Int.ediv_nonneg (by simp only [instant, Instant.ofSeconds]; omega) (by decide))

theorem isValid_date (h : t.instant.reading.date.year ≤ lastYear) : t.instant.reading.date.isValid = true :=
  Date.isValid_ofDayNumber (Int.le_trans (by decide) (le_year t)) (Int.le_trans h (by decide))

/-- The clock at a time from 1970 on shows a time that there is. -/
theorem seconds?_reading (h : t.instant.reading.date.year ≤ lastYear) :
    seconds? t.instant.reading.date.year.toNat t.instant.reading.date.month t.instant.reading.date.day
      t.instant.reading.hour t.instant.reading.minute t.instant.reading.second = some t.seconds := by
  have hyear := le_year t
  have hvalid := isValid_date h
  have hdate := Date.mk_toNat (Int.le_trans (by decide) hyear)
  have hday : t.instant.reading.date.dayNumber = t.instant.millis / 86400000 := Date.dayNumber_ofDayNumber _
  have htime := reading_timeOfDay t.instant
  have hnot : ¬ (t.instant.reading.date.year.toNat < 1970 ∨ (!t.instant.reading.date.isValid) = true ∨
      23 < t.instant.reading.hour ∨ 59 < t.instant.reading.minute ∨ 59 < t.instant.reading.second) := by
    rw [hvalid]
    simp only [Bool.not_true, Bool.false_eq_true, false_or, not_or, Nat.not_lt]
    exact ⟨by omega, htime⟩
  simp only [seconds?, hdate]
  rw [if_neg hnot, hday]
  simp only [Instant.reading, instant, Instant.ofSeconds, Option.some.injEq]
  omega

/-! ## Both forms -/

/-- The form can hold the year. -/
structure Valid (t : Timestamp) : Prop where
  year : t.instant.reading.date.year ≤ lastYear
  short : t.form = .utc → t.instant.reading.date.year < firstGeneralizedYear

theorem century_mod {year : Nat} (hlow : 1950 ≤ year) (hhigh : year < 2050) : century (year % 100) = year := by
  rw [century]
  split <;> omega

/-- Month to second, and `Z`. -/
def contentAfterYear (t : Timestamp) : Bytes :=
  digits 2 t.instant.reading.date.month ++ digits 2 t.instant.reading.date.day ++ digits 2 t.instant.reading.hour
    ++ digits 2 t.instant.reading.minute ++ digits 2 t.instant.reading.second ++ [0x5A]

/-- The digits of a year in the form. -/
def yearDigits (form : TimeForm) (year : Nat) : Bytes :=
  match form with
  | .utc => digits 2 (year % 100)
  | .generalized => digits 4 year

theorem content_eq (t : Timestamp) :
    t.content = yearDigits t.form t.instant.reading.date.year.toNat ++ t.contentAfterYear := by
  obtain ⟨form, seconds⟩ := t
  cases form <;> simp only [content, contentAfterYear, yearDigits, List.append_assoc]

theorem afterYear?_content (h : t.instant.reading.date.year ≤ lastYear) :
    afterYear? t.instant.reading.date.year.toNat t.contentAfterYear = some t.seconds := by
  obtain ⟨hhour, hminute, hsecond⟩ := reading_timeOfDay t.instant
  have hmonth : t.instant.reading.date.month ≤ 12 := Date.month_ofDayNumber_le _
  have hday : t.instant.reading.date.day ≤ 31 := Date.day_ofDayNumber_le _
  rw [contentAfterYear, afterYear?_digits _ (by omega) (by omega) (by omega) (by omega) (by omega), seconds?_reading h]

theorem ofElement?_utc {e : Element} (h : e.tag = Tag.utcTime) : ofElement? e =
    (digits? (e.content.take 2)).bind fun yy => (afterYear? (century yy) (e.content.drop 2)).map (mk .utc) := by
  rw [ofElement?, if_pos h]
  cases digits? (e.content.take 2) with
  | none => rfl
  | some yy => exact (Option.map_eq_bind ..).symm

theorem ofElement?_generalized {e : Element} (h : e.tag = Tag.generalizedTime) : ofElement? e =
    (digits? (e.content.take 4)).bind fun year => (afterYear? year (e.content.drop 4)).map (mk .generalized) := by
  rw [ofElement?, if_neg (by rw [h]; decide), if_pos h]
  cases digits? (e.content.take 4) with
  | none => rfl
  | some year => exact (Option.map_eq_bind ..).symm

/-- A time whose year its form can hold is read as it was written. -/
theorem ofElement?_toElement (h : t.Valid) : ofElement? t.toElement = some t := by
  have hafter := afterYear?_content h.year
  have hlow := le_year t
  cases hform : t.form with
  | utc =>
    have hshort : t.instant.reading.date.year < 2050 := h.short hform
    have htag : t.toElement.tag = Tag.utcTime := by simp only [toElement, tag, hform]
    have hcontent : t.toElement.content = digits 2 (t.instant.reading.date.year.toNat % 100) ++ t.contentAfterYear := by
      simp only [toElement, content_eq, hform, yearDigits]
    have hyear := digits?_digits (show t.instant.reading.date.year.toNat % 100 < Nat.pow 10 2 from Nat.mod_lt _ (by decide))
    have hcentury := century_mod (show 1950 ≤ t.instant.reading.date.year.toNat by omega) (by omega)
    rw [ofElement?_utc htag, hcontent, List.take_left' (length_digits ..), List.drop_left' (length_digits ..), hyear,
      Option.bind_some, hcentury, hafter, Option.map_some, ← hform]
  | generalized =>
    have hlast : t.instant.reading.date.year ≤ 9999 := h.year
    have htag : t.toElement.tag = Tag.generalizedTime := by simp only [toElement, tag, hform]
    have hcontent : t.toElement.content = digits 4 t.instant.reading.date.year.toNat ++ t.contentAfterYear := by
      simp only [toElement, content_eq, hform, yearDigits]
    have hyear := digits?_digits (show t.instant.reading.date.year.toNat < Nat.pow 10 4 from
      (Int.toNat_lt (by omega)).mpr (Int.lt_add_one_of_le hlast))
    rw [ofElement?_generalized htag, hcontent, List.take_left' (length_digits ..), List.drop_left' (length_digits ..),
      hyear, Option.bind_some, hafter, Option.map_some, ← hform]

/-! ## The last time -/

/-- Seconds from 1970 to the start of the year 10000. -/
def limit : Nat := 253402300800

/-- A time is before the year 10000, if its form can hold the year. -/
theorem Valid.seconds_lt (h : t.Valid) : t.seconds < limit := by
  have hlast : t.instant.reading.date.year ≤ 9999 := h.year
  have hbefore := Date.dayNumber_lt (isValid_date h.year)
  have hnext : Date.daysToYear (t.instant.reading.date.year + 1) - Date.epochDay ≤ 2932897 :=
    Int.sub_le_sub_right (Date.daysToYear_mono (b := 10000) (by omega)) _
  have hday : t.instant.reading.date.dayNumber = t.instant.millis / 86400000 := Date.dayNumber_ofDayNumber _
  have hmillis : t.instant.millis = (t.seconds : Int) * 1000 := rfl
  simp only [limit]
  omega

/-! ## Instants -/

/-- The form that is chosen for an instant can hold its year, and the part of a second is lost. -/
theorem ofInstant_eq_ok {i : Instant} (h : ofInstant i = .ok t) : t.Valid ∧ t.instant = .ofSeconds i.seconds := by
  simp only [ofInstant] at h
  split at h
  · cases h
  · rename_i hepoch
    split at h
    · cases h
    · rename_i hlast
      cases h
      have hinstant : Instant.ofSeconds i.seconds.toNat = .ofSeconds i.seconds := by
        rw [Int.toNat_of_nonneg (by omega)]
      have hdate : (Instant.ofSeconds i.seconds).reading.date = i.reading.date := by rw [reading_ofSeconds]
      refine ⟨⟨?_, fun hform => ?_⟩, hinstant⟩
      · rw [instant, hinstant, hdate]
        exact Int.not_lt.mp hlast
      · rw [instant, hinstant, hdate]
        by_cases hyear : i.reading.date.year < firstGeneralizedYear
        · exact hyear
        · rw [if_neg hyear] at hform
          cases hform

end

end PolicySeal.Der.Timestamp
