import PolicySeal.Proofs.Issuing.Hierarchy
import PolicySeal.Proofs.Time.Written
/-
  PolicySeal.Proofs.Issuing.Dates — the dates of a certificate, from the request to the reader.

  A date can be written if it is not before 1970 and not after the year 9999
  (`ofInstant_isOk_iff`). Its text is that of a UTC time, with two digits of the year, up to the end
  of 2049, and that of a generalized time from then on; the reader takes two digits for a year from
  1950 to 2049, so the two ends meet (`toElement_ofInstant`). What is read back of it is the time
  without its part of a second, from its own element and from every certificate that was issued
  with it and accepted (`validity_survives_issuing`).
-/

namespace PolicySeal

open Der Time X509

/-! ## The texts of dates -/

/-- Month to second with two digits each, and `Z`. -/
def Time.Reading.fromMonth (r : Reading) : List Char :=
  padded 2 r.date.month ++ padded 2 r.date.day ++ padded 2 r.hour ++ padded 2 r.minute ++ padded 2 r.second ++ ['Z']

/-- The text of a UTC time: the last two digits of the year, and the rest. -/
def Time.Reading.utcText (r : Reading) : String := String.ofList (padded 2 (r.date.year.toNat % 100) ++ r.fromMonth)

/-- The text of a generalized time: four digits of the year, and the rest. -/
def Time.Reading.generalizedText (r : Reading) : String := String.ofList (padded 4 r.date.year.toNat ++ r.fromMonth)

namespace Der.Timestamp

theorem utf8_digitChar : ∀ d < 10, String.utf8EncodeChar (Nat.digitChar d) = [UInt8.ofNat (0x30 + d)] := by decide

/-- Digits in bytes are those of the padded number. -/
theorem digits_eq {width n : Nat} (hwidth : 0 < width) (h : n < 10 ^ width) :
    digits width n = (padded width n).flatMap String.utf8EncodeChar := by
  induction width generalizing n with
  | zero => cases hwidth
  | succ width ih =>
    have hlast := utf8_digitChar (n % 10) (Nat.mod_lt _ (by decide))
    cases width with
    | zero =>
      have hone : padded 1 n = [Nat.digitChar (n % 10)] := by
        have hten : n < 10 := h
        rw [padded, Nat.toDigits_of_lt_base hten, Nat.mod_eq_of_lt hten]
        rfl
      rw [hone, List.flatMap_singleton, hlast]
      rfl
    | succ width =>
      have hrest : n / 10 < 10 ^ (width + 1) := Nat.div_lt_of_lt_mul (by rwa [← Nat.pow_succ'])
      rw [digits, ih (Nat.succ_pos _) hrest, padded_succ (Nat.succ_pos _), List.flatMap_append, List.flatMap_singleton, hlast]

theorem digits_two_eq {n : Nat} (h : n < 100) : digits 2 n = (padded 2 n).flatMap String.utf8EncodeChar :=
  digits_eq (by decide) h

variable {t : Timestamp}

theorem contentAfterYear_eq (t : Timestamp) :
    t.contentAfterYear = t.instant.reading.fromMonth.flatMap String.utf8EncodeChar := by
  obtain ⟨hhour, hminute, hsecond⟩ := reading_timeOfDay t.instant
  have hmonth : t.instant.reading.date.month ≤ 12 := Date.month_ofDayNumber_le _
  have hday : t.instant.reading.date.day ≤ 31 := Date.day_ofDayNumber_le _
  rw [contentAfterYear, digits_two_eq (show t.instant.reading.date.month < 100 by omega),
    digits_two_eq (show t.instant.reading.date.day < 100 by omega), digits_two_eq (show t.instant.reading.hour < 100 by omega),
    digits_two_eq (show t.instant.reading.minute < 100 by omega), digits_two_eq (show t.instant.reading.second < 100 by omega),
    Reading.fromMonth]
  simp only [List.flatMap_append]
  rfl

/-- The element of a time that its form can hold is the text of that form. -/
theorem toElement_eq (h : t.Valid) : t.toElement = match t.form with
    | .utc => ⟨Tag.utcTime, Text.utf8 t.instant.reading.utcText⟩
    | .generalized => ⟨Tag.generalizedTime, Text.utf8 t.instant.reading.generalizedText⟩ := by
  have hlow := le_year t
  cases hform : t.form with
  | utc =>
    have hyear := digits_two_eq (Nat.mod_lt t.instant.reading.date.year.toNat (show 0 < 100 by decide))
    simp only [toElement, tag, content_eq, hform, yearDigits, Reading.utcText, Text.utf8, String.toList_ofList, List.flatMap_append,
      hyear, contentAfterYear_eq]
  | generalized =>
    have hlast : t.instant.reading.date.year ≤ 9999 := h.year
    have hfour : t.instant.reading.date.year.toNat < 10 ^ 4 := by omega
    have hyear := digits_eq (by decide) hfour
    simp only [toElement, tag, content_eq, hform, yearDigits, Reading.generalizedText, Text.utf8, String.toList_ofList,
      List.flatMap_append, hyear, contentAfterYear_eq]

/-! ## Dates that can be written -/

variable {i : Instant}

/-- An instant can be written from the epoch to the end of the last year. -/
theorem ofInstant_isOk_iff : (∃ t, ofInstant i = .ok t) ↔ 0 ≤ i.seconds ∧ i.reading.date.year ≤ lastYear := by
  simp only [ofInstant]
  split
  · rename_i hepoch
    refine iff_of_false (fun h => ?_) fun h => absurd h.1 (Int.not_le.mpr hepoch)
    obtain ⟨_, h⟩ := h
    cases h
  · rename_i hepoch
    split
    · rename_i hlast
      refine iff_of_false (fun h => ?_) fun h => absurd h.2 (Int.not_le.mpr hlast)
      obtain ⟨_, h⟩ := h
      cases h
    · rename_i hlast
      exact iff_of_true ⟨_, rfl⟩ ⟨Int.not_lt.mp hepoch, Int.not_lt.mp hlast⟩

theorem form_of_ofInstant (h : ofInstant i = .ok t) :
    t.form = if i.reading.date.year < firstGeneralizedYear then .utc else .generalized := by
  simp only [ofInstant] at h
  split at h
  · cases h
  · split at h
    · cases h
    · cases h
      rfl

/-- Of an instant the clock to the second is written, in the form that its year asks for. -/
theorem toElement_ofInstant (h : ofInstant i = .ok t) : t.toElement =
    if i.reading.date.year < firstGeneralizedYear then ⟨Tag.utcTime, Text.utf8 i.reading.utcText⟩
    else ⟨Tag.generalizedTime, Text.utf8 i.reading.generalizedText⟩ := by
  obtain ⟨hvalid, hinstant⟩ := ofInstant_eq_ok h
  rw [toElement_eq hvalid, form_of_ofInstant h, hinstant, reading_ofSeconds]
  by_cases hyear : i.reading.date.year < firstGeneralizedYear
  · simp only [if_pos hyear]
    rfl
  · simp only [if_neg hyear]
    rfl

end Der.Timestamp

theorem epoch_le_iff (t : Instant) : Reading.instant ⟨⟨1970, 1, 1⟩, 0, 0, 0, 0⟩ ≤ t ↔ 0 ≤ t.seconds := by
  have hepoch : (Reading.instant ⟨⟨1970, 1, 1⟩, 0, 0, 0, 0⟩).millis = 0 := by decide
  show (Reading.instant ⟨⟨1970, 1, 1⟩, 0, 0, 0, 0⟩).millis ≤ t.millis ↔ 0 ≤ t.seconds
  rw [hepoch, Instant.seconds]
  omega

/-! ## Dates of issued certificates -/

namespace IssueRequest

/-- What is accepted of an issued text has the dates that were requested, to the second. -/
theorem dates_of_issueText {r : IssueRequest} {issuerKey : Rsa.PrivateKey} {random : Vector UInt8 16} {text : String}
    {c : Certificate} (hissued : r.issueText issuerKey random = .ok text) (hc : Certificate.ofText text = .ok c) :
    c.validFrom = .ofSeconds r.notBefore.seconds ∧ c.validTo = .ofSeconds r.notAfter.seconds := by
  obtain ⟨d, h, rfl⟩ := issueText_eq_ok hissued
  obtain ⟨hfrom, hto⟩ := h.dates
  rw [Certificate.validFrom, Certificate.validTo, h.document_eq hc]
  exact ⟨hfrom, hto⟩

end IssueRequest

/-- A date can be put into a certificate exactly if it is not before 1970-01-01T00:00:00Z and in the year 9999 at the
latest. Before 2050 it stands there as a UTC time, with two digits of the year, otherwise as a generalized time, with
four; either is read back, and gives the date without its part of a second. So does every certificate that was issued with
the date and is accepted from its text. -/
theorem validity_survives_issuing (t : Instant) :
    ((∃ x, dateOf t = .ok x) ↔ Reading.instant ⟨⟨1970, 1, 1⟩, 0, 0, 0, 0⟩ ≤ t ∧ t.reading.date.year ≤ 9999) ∧
    (∀ x, dateOf t = .ok x →
      (t.reading.date.year < 2050 → x.toElement = ⟨Tag.utcTime, Text.utf8 t.reading.utcText⟩) ∧
      (2050 ≤ t.reading.date.year → x.toElement = ⟨Tag.generalizedTime, Text.utf8 t.reading.generalizedText⟩) ∧
      Timestamp.ofElement? x.toElement = some x ∧ x.instant = .ofSeconds t.seconds ∧
      x.instant.reading = { t.reading with nanosecond := 0 }) ∧
    ∀ (r : IssueRequest) (issuerKey : Rsa.PrivateKey) (random : Vector UInt8 16) (text : String) (c : Certificate),
      r.issueText issuerKey random = .ok text → Certificate.ofText text = .ok c →
        (r.notBefore = t → c.validFrom = .ofSeconds t.seconds) ∧ (r.notAfter = t → c.validTo = .ofSeconds t.seconds) := by
  refine ⟨?_, fun x hx => ?_, fun r issuerKey random text c hissued hc => ?_⟩
  · rw [epoch_le_iff]
    simp only [dateOf_eq_ok_iff]
    exact Timestamp.ofInstant_isOk_iff
  · have hinstant := dateOf_eq_ok_iff.mp hx
    have hread := Timestamp.ofInstant_eq_ok hinstant
    have helement := Timestamp.toElement_ofInstant hinstant
    exact ⟨fun hyear => helement.trans (if_pos hyear), fun hyear => helement.trans (if_neg (Int.not_lt.mpr hyear)),
      Timestamp.ofElement?_toElement hread.1, hread.2, by rw [hread.2, reading_ofSeconds]⟩
  · obtain ⟨hfrom, hto⟩ := IssueRequest.dates_of_issueText hissued hc
    exact ⟨fun h => h ▸ hfrom, fun h => h ▸ hto⟩

/-- A certificate from 2025-01-01T00:00:00.250Z to 2050-12-31T23:59:59.750Z: a date in each form. -/
theorem nodeRoot_dates_survive : ∃ notBefore notAfter text c,
    dateOf ⟨1735689600250⟩ = .ok notBefore ∧ notBefore.toElement = ⟨Tag.utcTime, Text.utf8 "250101000000Z"⟩ ∧
    dateOf ⟨2556143999750⟩ = .ok notAfter ∧ notAfter.toElement = ⟨Tag.generalizedTime, Text.utf8 "20501231235959Z"⟩ ∧
    Holder.issuedText Holder.nodeHolders .root = .ok text ∧ Certificate.ofText text = .ok c ∧
    c.validFrom = ⟨1735689600000⟩ ∧ c.validTo = ⟨2556143999000⟩ := by
  obtain ⟨hfromDates, hfromRead, hfromIssued⟩ := validity_survives_issuing ⟨1735689600250⟩
  obtain ⟨htoDates, htoRead, htoIssued⟩ := validity_survives_issuing ⟨2556143999750⟩
  obtain ⟨notBefore, hnotBefore⟩ := hfromDates.mpr (by decide)
  obtain ⟨notAfter, hnotAfter⟩ := htoDates.mpr (by decide)
  obtain ⟨text, hissued⟩ := Holder.nodeHolders_issued .root
  obtain ⟨c, hc, -⟩ := Holder.issuedText_accepted (by decide +kernel) (by decide +kernel) Holder.nodeHolders_types hissued
  have hfromText := (hfromRead notBefore hnotBefore).1 (by decide)
  have htoText := (htoRead notAfter hnotAfter).2.1 (by decide)
  exact ⟨notBefore, notAfter, text, c, hnotBefore, hfromText, hnotAfter, htoText, hissued, hc,
    (hfromIssued _ _ _ _ _ hissued hc).1 rfl, (htoIssued _ _ _ _ _ hissued hc).2 rfl⟩

end PolicySeal
