import PolicySeal.Proofs.Json.NumberText
import PolicySeal.Proofs.Text.Blank
import PolicySeal.Proofs.Time.Calendar
import PolicySeal.Time.Written
/-
  PolicySeal.Proofs.Time.Written — times are read as they were written.

  A number that is padded has as many digits as it is padded to, if it has no more itself, and
  they are its value (`length_padded`, `valueOf_padded`). Each step of the reader takes off the
  head of a text what one step of the writer has put there: a number, a year with or without a
  sign, the fraction that is left out when it is zero. So the reading of every clock, to the
  nanosecond and in every year of the calendar (`Reading.Valid`), is read from its text
  (`Reading.ofText?_text`).
-/

namespace PolicySeal.Time

open Json (IsDigits isDigits_toDigits takeWhile_isDigit)

/-! ## Padded numbers -/

theorem isDigits_padded (width n : Nat) : IsDigits (padded width n) := by
  obtain ⟨hne, hdigits⟩ := isDigits_toDigits n
  refine ⟨by simp [padded, hne], fun c hc => ?_⟩
  rcases List.mem_append.mp hc with hc | hc
  · rw [List.eq_of_mem_replicate hc]
    rfl
  · exact hdigits c hc

theorem length_padded {width n : Nat} (hwidth : 0 < width) (h : n < 10 ^ width) : (padded width n).length = width := by
  have hle : (Nat.toDigits 10 n).length ≤ width := (Nat.length_toDigits_le_iff (by decide) hwidth).mpr h
  rw [padded, List.length_append, List.length_replicate]
  omega

/-- The last digit of a number stands behind the padded number of the others. -/
theorem padded_succ {width : Nat} (hwidth : 0 < width) (n : Nat) :
    padded (width + 1) n = padded width (n / 10) ++ [Nat.digitChar (n % 10)] := by
  by_cases hsmall : n < 10
  · have hzeros : padded width 0 = List.replicate width '0' := by
      obtain ⟨k, rfl⟩ : ∃ k, width = k + 1 := ⟨width - 1, by omega⟩
      exact List.replicate_succ'.symm
    rw [Nat.div_eq_of_lt hsmall, Nat.mod_eq_of_lt hsmall, hzeros, padded, Nat.toDigits_of_lt_base hsmall]
    simp
  · rw [padded, padded, Nat.toDigits_of_base_le (by decide) (by omega : 10 ≤ n), List.length_append, List.length_singleton,
      Nat.add_sub_add_right, List.append_assoc]

namespace Written

theorem valueOf_eq (ds : List Char) : valueOf ds = Nat.ofDigitChars 10 ds 0 := Nat.ofDigitChars_eq_foldl.symm

theorem valueOf_padded (width n : Nat) : valueOf (padded width n) = n := by
  rw [valueOf_eq, padded, Nat.ofDigitChars_append, Nat.ofDigitChars_replicate_zero, Nat.mul_zero,
    Nat.ofDigitChars_ten_toDigits]

/-! ## Steps of the reader -/

theorem run_bind {α β : Type} {x : Step α} {f : α → Step β} {a : α} {cs rest : List Char}
    (h : x.run cs = .ok (a, rest)) : (x >>= f).run cs = (f a).run rest := by
  rw [StateT.run_bind, h]
  rfl

@[simp] theorem run_get_bind {α : Type} (f : List Char → Step α) (cs : List Char) :
    ((get : Step (List Char)) >>= f).run cs = (f cs).run cs := rfl

@[simp] theorem run_set_bind {α : Type} (f : PUnit → Step α) (cs rest : List Char) :
    ((set rest : Step PUnit) >>= f).run cs = (f ⟨⟩).run rest := rfl

@[simp] theorem run_modify_bind {α : Type} (f : PUnit → Step α) (g : List Char → List Char) (cs : List Char) :
    ((modify g : Step PUnit) >>= f).run cs = (f ⟨⟩).run (g cs) := rfl

@[simp] theorem run_pure {α : Type} (a : α) (cs : List Char) : (pure a : Step α).run cs = .ok (a, cs) := rfl

theorem isBlank_of_isDigit {c : Char} (h : c.isDigit = true) : Text.isBlank c = false := by
  simp only [Char.isDigit, Bool.and_eq_true, decide_eq_true_eq, UInt32.le_iff_toNat_le] at h
  have hlow : 48 ≤ c.toNat := h.1
  have hhigh : c.toNat ≤ 57 := h.2
  exact Text.isBlank_visible ⟨by omega, by omega⟩

theorem skipBlanks_cons {c : Char} (h : Text.isBlank c = false) (rest : List Char) :
    skipBlanks.run (c :: rest) = .ok ((), c :: rest) := by
  have htrim : Text.trimStartChars (c :: rest) = c :: rest := by simp [Text.trimStartChars, h]
  exact congrArg (fun cs => Except.ok ((), cs)) htrim

theorem skipBlanks_digits {ds : List Char} (h : IsDigits ds) (rest : List Char) :
    skipBlanks.run (ds ++ rest) = .ok ((), ds ++ rest) := by
  obtain ⟨c, ds, rfl, hc, -⟩ := h.exists_cons
  exact skipBlanks_cons (isBlank_of_isDigit hc) _

/-- The digits are taken that there are, if there are no more than asked for, or none follows. -/
theorem digits_append {width : Nat} {ds rest : List Char} (h : IsDigits ds) (hwidth : ds.length ≤ width)
    (hstop : ds.length = width ∨ ∀ c ∈ rest.head?, c.isDigit = false) : (digits width).run (ds ++ rest) = .ok (ds, rest) := by
  have htake : ((ds ++ rest).take width).takeWhile Char.isDigit = ds := by
    rw [List.take_append, List.take_of_length_le hwidth]
    refine (takeWhile_isDigit h.2 fun c hc => ?_).1
    rcases hstop with hlength | hrest
    · simp [hlength] at hc
    · exact hrest c (by cases rest <;> cases hn : width - ds.length <;> simp_all)
  have hdrop : (ds ++ rest).drop ds.length = rest := List.drop_left
  obtain ⟨c, tail, rfl, hc, -⟩ := h.exists_cons
  rw [List.cons_append] at htake hdrop ⊢
  simp only [digits, run_get_bind, hc, Bool.not_true, Bool.false_eq_true, if_false, run_set_bind, run_pure, htake, hdrop]

/-- A padded number is read as that number. -/
theorem number_padded {width low high n : Nat} (hwidth : 0 < width) (h : n < 10 ^ width) (hlow : low ≤ n) (hhigh : n ≤ high)
    (rest : List Char) : (number width low high).run (padded width n ++ rest) = .ok (n, rest) := by
  have hdigits := isDigits_padded width n
  have hlength := length_padded hwidth h
  rw [number, run_bind (skipBlanks_digits hdigits rest),
    run_bind (digits_append hdigits (Nat.le_of_eq hlength) (.inl hlength)), valueOf_padded, if_neg (by omega)]
  rfl

theorem literal_cons {c : Char} (h : Text.isBlank c = false) (rest : List Char) :
    (literal c).run (c :: rest) = .ok ((), rest) := by
  rw [literal, run_bind (skipBlanks_cons h rest), run_get_bind]
  simp only [if_true]
  rfl

/-! ## Years and fractions -/

section

variable {rest : List Char} (hrest : ∀ c ∈ rest.head?, c.isDigit = false)

include hrest

/-- After a sign all digits are taken that there are. -/
theorem magnitude_padded (n : Nat) :
    (digits (padded 4 n ++ rest).length).run (padded 4 n ++ rest) = .ok (padded 4 n, rest) :=
  digits_append (isDigits_padded 4 n) (by simp) (.inr hrest)

theorem year_negative {n : Nat} (h : n < 0x80000000) : year.run ('-' :: (padded 4 n ++ rest)) = .ok (-n, rest) := by
  rw [year, run_bind (skipBlanks_cons (by decide) _), run_get_bind]
  simp only [run_set_bind, bind_assoc]
  rw [run_bind (magnitude_padded hrest n), valueOf_padded, if_neg (by omega)]
  rfl

theorem year_positive {n : Nat} (h : n < 0x80000000) : year.run ('+' :: (padded 4 n ++ rest)) = .ok (n, rest) := by
  rw [year, run_bind (skipBlanks_cons (by decide) _), run_get_bind]
  simp only [run_set_bind, bind_assoc]
  rw [run_bind (magnitude_padded hrest n), valueOf_padded, if_neg (by omega)]
  rfl

end

theorem year_unsigned {n : Nat} (h : n < 10000) (rest : List Char) : year.run (padded 4 n ++ rest) = .ok (n, rest) := by
  have hdigits := isDigits_padded 4 n
  have hlength := length_padded (by decide) (show n < 10 ^ 4 from h)
  have hrun : (digits 4).run (padded 4 n ++ rest) = .ok (padded 4 n, rest) :=
    digits_append hdigits (Nat.le_of_eq hlength) (.inl hlength)
  have hvalue := valueOf_padded 4 n
  rw [year, run_bind (skipBlanks_digits hdigits rest), run_get_bind]
  obtain ⟨c, tail, hcons, hc, -⟩ := hdigits.exists_cons
  rw [hcons] at hrun hvalue ⊢
  split
  · rename_i heq
    rw [(List.cons.inj heq).1] at hc
    cases hc
  · rename_i heq
    rw [(List.cons.inj heq).1] at hc
    cases hc
  · rw [run_bind hrun, hvalue]
    rfl

/-- A year is read with its sign, if it is written with one. -/
theorem year_yearText {y : Int} (h : y.natAbs < 0x80000000) {rest : List Char} (hrest : ∀ c ∈ rest.head?, c.isDigit = false) :
    year.run (yearText y ++ rest) = .ok (y, rest) := by
  rw [yearText]
  split
  · rw [List.singleton_append, List.cons_append, year_negative hrest h]
    congr 2
    omega
  · split
    · rw [List.singleton_append, List.cons_append, year_positive hrest h]
      congr 2
      omega
    · rw [List.nil_append, year_unsigned (by omega)]
      congr 2
      omega

/-- A fraction of a number of digits, of which nine are taken at most. -/
theorem fraction_padded {width n : Nat} (hwidth : 0 < width) (hnine : width ≤ 9) (h : n < 10 ^ width) {rest : List Char}
    (hrest : ∀ c ∈ rest.head?, c.isDigit = false) :
    fraction.run ('.' :: (padded width n ++ rest)) = .ok (n * Nat.pow 10 (9 - width), rest) := by
  have hlength := length_padded hwidth h
  have hrun := digits_append (isDigits_padded width n) (Nat.le_trans (Nat.le_of_eq hlength) hnine) (.inr hrest)
  have hnone : rest.dropWhile Char.isDigit = rest := (takeWhile_isDigit (List.forall_mem_nil _) hrest).2
  rw [fraction, run_get_bind]
  simp only [run_set_bind]
  rw [run_bind hrun, run_modify_bind, run_pure, valueOf_padded, hlength, hnone]

/-- A fraction is read to the nanosecond, and where there is none as zero. -/
theorem fraction_fractionText {nanosecond : Nat} (h : nanosecond < 1000000000) {rest : List Char}
    (hrest : ∀ c ∈ rest.head?, c.isDigit = false ∧ c ≠ '.') :
    fraction.run (fractionText nanosecond ++ rest) = .ok (nanosecond, rest) := by
  have hdigit : ∀ c ∈ rest.head?, c.isDigit = false := fun c hc => (hrest c hc).1
  rw [fractionText]
  split
  · rename_i hzero
    rw [hzero, List.nil_append, fraction, run_get_bind]
    split
    · exact absurd rfl (hrest '.' rfl).2
    · rfl
  · split
    · rw [List.cons_append, fraction_padded (by decide) (by decide) (by omega) hdigit]
      congr 2
      show nanosecond / 1000000 * 1000000 = nanosecond
      omega
    · split
      · rw [List.cons_append, fraction_padded (by decide) (by decide) (by omega) hdigit]
        congr 2
        show nanosecond / 1000 * 1000 = nanosecond
        omega
      · rw [List.cons_append, fraction_padded (by decide) (by decide) (by omega) hdigit]
        congr 2
        exact Nat.mul_one _

end Written

/-! ## Readings -/

/-- A reading of a clock: a date of the calendar, and a time of day that may be the second put in at its end. -/
structure Reading.Valid (r : Reading) : Prop where
  date : r.date.isValid = true
  hour : r.hour ≤ 23
  minute : r.minute ≤ 59
  second : r.second ≤ 60
  nanosecond : r.nanosecond < 1000000000

instance (r : Reading) : Decidable r.Valid :=
  decidable_of_iff
    (r.date.isValid = true ∧ r.hour ≤ 23 ∧ r.minute ≤ 59 ∧ r.second ≤ 60 ∧ r.nanosecond < 1000000000)
    ⟨fun ⟨hdate, hhour, hminute, hsecond, hless⟩ => ⟨hdate, hhour, hminute, hsecond, hless⟩,
      fun ⟨hdate, hhour, hminute, hsecond, hless⟩ => ⟨hdate, hhour, hminute, hsecond, hless⟩⟩

theorem Date.month_day_of_isValid {d : Date} (h : d.isValid = true) : 1 ≤ d.month ∧ d.month ≤ 12 ∧ 1 ≤ d.day ∧ d.day ≤ 31 := by
  simp only [isValid, Bool.and_eq_true, decide_eq_true_iff] at h
  obtain ⟨⟨⟨⟨-, hfirst⟩, hmonth⟩, hone⟩, hday⟩ := h
  exact ⟨hfirst, hmonth, hone, Nat.le_trans hday (getD_monthLengths_le d.year (d.month - 1))⟩

theorem Date.natAbs_year_of_isValid {d : Date} (h : d.isValid = true) : d.year.natAbs < 0x80000000 := by
  simp only [isValid, Bool.and_eq_true, decide_eq_true_iff] at h
  simp only [firstYear, lastYear] at h
  omega

namespace Written

/-- Each part of a reading is read from its own text. -/
theorem parts_text {r : Reading} (h : r.Valid) : parts.run r.text.toList = .ok ((r, 0), []) := by
  obtain ⟨date, hour, minute, second, nanosecond⟩ := r
  obtain ⟨hdate, hhour, hminute, hsecond, hnanosecond⟩ := h
  simp only at hdate hhour hminute hsecond hnanosecond
  obtain ⟨hfirst, hmonth, hone, hday⟩ := Date.month_day_of_isValid hdate
  have htext : (Reading.text ⟨date, hour, minute, second, nanosecond⟩).toList = yearText date.year ++ '-' ::
      (padded 2 date.month ++ '-' :: (padded 2 date.day ++ 'T' :: (padded 2 hour ++ ':' :: (padded 2 minute ++ ':' ::
        (padded 2 second ++ (fractionText nanosecond ++ ['Z'])))))) := by
    simp [Reading.text, Date.text, Reading.clockText]
  have hdash : Text.isBlank '-' = false := by decide
  have hcolon : Text.isBlank ':' = false := by decide
  rw [htext, parts, run_bind (year_yearText (Date.natAbs_year_of_isValid hdate) (by simp)),
    run_bind (literal_cons hdash _), run_bind (number_padded (by decide) (by omega) hfirst hmonth _),
    run_bind (literal_cons hdash _), run_bind (number_padded (by decide) (by omega) hone hday _), run_get_bind]
  simp only [true_or, or_true, if_true, run_set_bind]
  rw [run_bind (number_padded (by decide) (by omega) (Nat.zero_le _) hhour _), run_bind (literal_cons hcolon _),
    run_bind (number_padded (by decide) (by omega) (Nat.zero_le _) hminute _), run_bind (literal_cons hcolon _),
    run_bind (number_padded (by decide) (by omega) (Nat.zero_le _) hsecond _),
    run_bind (fraction_fractionText hnanosecond (by simp))]
  rfl

end Written

/-- On a clock that is not behind it is the same time. -/
theorem Reading.back_zero {r : Reading} (h : r.Valid) : r.back 0 = r := by
  obtain ⟨date, hour, minute, second, nanosecond⟩ := r
  obtain ⟨hdate, hhour, hminute, -, -⟩ := h
  simp only at hdate hhour hminute
  have hday : ((60 * hour + minute : Nat) - 0 : Int) / 1440 = 0 := by omega
  have htime : (((60 * hour + minute : Nat) - 0 : Int) % 1440).toNat = 60 * hour + minute := by omega
  simp only [Reading.back, hday, htime, Int.add_zero, Date.ofDayNumber_dayNumber hdate, Reading.mk.injEq, true_and,
    and_true]
  omega

/-- A reading is read from its text. -/
theorem Reading.ofText?_text {r : Reading} (h : r.Valid) : ofText? r.text = .ok r := by
  have hparts := Written.parts_text h
  simp only [ofText?, hparts, h.date, Reading.back_zero h, bind, Except.bind]
  rfl

end PolicySeal.Time
