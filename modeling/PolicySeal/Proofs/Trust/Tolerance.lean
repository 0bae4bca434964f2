import PolicySeal.Config.Trust
import PolicySeal.Proofs.Certificate
import PolicySeal.Proofs.Trust.Chain
import PolicySeal.Proofs.X509.Exact
/-
  PolicySeal.Proofs.Trust.Tolerance — for which tolerances a validation has an answer.

  A tolerance moves the dates of a certificate, and a date must not leave the calendar. The
  start is moved first; the end only where the certificate is not refused as not yet valid.
  So a validation has an answer exactly where those dates can be moved that are looked at
  (`validate?_eq_some_iff`). The dates of certificates that were read lie between 1970 and the
  year 9999, and what is left from there to the end of the calendar is the widest tolerance
  with which every validation has one (`validation_answers`). A configuration may ask for more:
  with the largest tolerance there is no answer (`largestTolerance_breaks`).
-/

namespace PolicySeal.Trust

open Der Time X509

/-! ## Dates that are moved -/

/-- The dates, moved by the tolerance as far as they are looked at, stay in the calendar. -/
structure Movable (c : Certificate) (now : Instant) (skew : Span) : Prop where
  start : Instant.earliest.millis ≤ c.validFrom.millis - skew.millis
  stop : c.validFrom.millis - skew.millis ≤ now.millis → c.validTo.millis + skew.millis ≤ Instant.latest.millis

/-- The last moment that a certificate can name. -/
def lastDate : Instant := .ofSeconds (Timestamp.limit - 1)

/-- What is left from there to the end of the calendar. -/
def widestTolerance : Span := Instant.latest.since lastDate

section

variable {tier : Tier} {c : Certificate} {now : Instant} {skew : Span}

theorem add?_eq_some_iff {t u : Instant} {s : Span} : t.add? s = some u ↔
    u = ⟨t.millis + s.millis⟩ ∧ Instant.earliest.millis ≤ t.millis + s.millis ∧ t.millis + s.millis ≤ Instant.latest.millis := by
  have hrange : (⟨t.millis + s.millis⟩ : Instant).inRange = true ↔
      Instant.earliest.millis ≤ t.millis + s.millis ∧ t.millis + s.millis ≤ Instant.latest.millis := by
    rw [Instant.inRange, Bool.and_eq_true, decide_eq_true_iff, decide_eq_true_iff]
    rfl
  simp only [Instant.add?, Option.ite_none_right_eq_some, Option.some.injEq, hrange]
  constructor
  · intro h
    exact ⟨h.2.symm, h.1⟩
  · intro h
    exact ⟨h.2, h.1.symm⟩

/-- The dates of a certificate that was read. -/
theorem dates_of_read (hc : c.Read) : (0 ≤ c.validFrom.millis ∧ c.validFrom.millis ≤ lastDate.millis) ∧
    0 ≤ c.validTo.millis ∧ c.validTo.millis ≤ lastDate.millis := by
  obtain ⟨bs, hdecode⟩ := hc.decoded
  obtain ⟨hfrom, hto⟩ := Document.bounded_of_decode? hdecode
  simp only [Certificate.validFrom, Certificate.validTo, Timestamp.instant, lastDate, Instant.ofSeconds]
  omega

theorem checkDates?_eq_some_iff (hc : c.Read) (hs : 0 ≤ skew.millis) :
    (∃ fs, checkDates? tier c now skew = some fs) ↔ Movable c now skew := by
  obtain ⟨⟨hfrom, hfrom'⟩, hto, hto'⟩ := dates_of_read hc
  have hcalendar : Instant.earliest.millis ≤ 0 ∧ lastDate.millis ≤ Instant.latest.millis := by decide
  constructor
  · rintro ⟨fs, h⟩
    simp only [checkDates?, lt_iff_millis] at h
    obtain ⟨start, hstart, h⟩ := Option.bind_eq_some_iff.mp h
    obtain ⟨rfl, hfirst, -⟩ := add?_eq_some_iff.mp hstart
    refine ⟨by simp only at hfirst; omega, fun hnow => ?_⟩
    rw [if_neg (by simp only; omega)] at h
    obtain ⟨stop, hstop, -⟩ := Option.bind_eq_some_iff.mp h
    exact (add?_eq_some_iff.mp hstop).2.2
  · rintro ⟨hstart, hstop⟩
    have hmoved : c.validFrom.sub? skew = some ⟨c.validFrom.millis - skew.millis⟩ :=
      add?_eq_some_iff.mpr ⟨rfl, by simp only; omega⟩
    by_cases hnow : now.millis < c.validFrom.millis - skew.millis
    · refine ⟨[.error (.notYetValid tier c.subject c.validFrom)], ?_⟩
      simp only [checkDates?, lt_iff_millis, hmoved, Option.bind_eq_bind, Option.bind_some, if_pos hnow]
      rfl
    · have hend := hstop (by omega)
      have hmoved' : c.validTo.add? skew = some ⟨c.validTo.millis + skew.millis⟩ :=
        add?_eq_some_iff.mpr ⟨rfl, by omega, hend⟩
      exact checkDates?_isSome (by rw [hmoved]; rfl) (by rw [hmoved']; rfl)

/-! ## Validations -/

variable {h : Hierarchy}

theorem validate?_eq_some_iff_dates : (∃ v, validate? h now skew = some v) ↔
    ∀ tier, ∃ fs, checkDates? tier (h.certificate tier) now skew = some fs := by
  constructor
  · rintro ⟨v, hv⟩ tier
    obtain ⟨signing, hsigning, hv⟩ := Option.bind_eq_some_iff.mp hv
    obtain ⟨intermediate, hintermediate, hv⟩ := Option.bind_eq_some_iff.mp hv
    obtain ⟨root, hroot, -⟩ := Option.bind_eq_some_iff.mp hv
    cases tier with
    | root => exact ⟨root, hroot⟩
    | intermediate => exact ⟨intermediate, hintermediate⟩
    | signing => exact ⟨signing, hsigning⟩
  · intro hdates
    obtain ⟨signing, hsigning⟩ := hdates .signing
    obtain ⟨intermediate, hintermediate⟩ := hdates .intermediate
    obtain ⟨root, hroot⟩ := hdates .root
    simp only [Hierarchy.certificate] at hsigning hintermediate hroot
    simp [validate?, hsigning, hintermediate, hroot]

theorem validate?_eq_some_iff (hread : ∀ tier, (h.certificate tier).Read) (hs : 0 ≤ skew.millis) :
    (∃ v, validate? h now skew = some v) ↔ ∀ tier, Movable (h.certificate tier) now skew := by
  rw [validate?_eq_some_iff_dates]
  exact forall_congr' fun tier => checkDates?_eq_some_iff (hread tier) hs

theorem movable_of_le (hc : c.Read) (hwidest : skew.millis ≤ widestTolerance.millis) :
    Movable c now skew := by
  obtain ⟨⟨hfrom, -⟩, -, hto⟩ := dates_of_read hc
  have hcalendar : Instant.earliest.millis ≤ 0 - widestTolerance.millis := by decide
  have hlast : lastDate.millis + widestTolerance.millis = Instant.latest.millis := by decide
  exact ⟨by omega, fun _ => by omega⟩

end

theorem skew_nonneg (config : TrustConfig) : 0 ≤ config.skew.millis := by
  simp only [TrustConfig.skew, spanOfMillis]
  omega

/-! ## A certificate that does not expire -/

/-- A hierarchy of one certificate. -/
def Hierarchy.ofOne (c : Certificate) : Hierarchy := ⟨c, c, c⟩

@[simp] theorem Hierarchy.certificate_ofOne (c : Certificate) (tier : Tier) : (ofOne c).certificate tier = c := by
  cases tier <;> rfl

/-- That of the root, valid to the last moment there is. -/
def lastingCertificate : Certificate :=
  { rootCertificate with
    document.statement.validity := ⟨⟨.utc, 1735689600⟩, ⟨.generalized, Timestamp.limit - 1⟩⟩ }

theorem rootKey_read : (KeyInfo.ofRsa rootKey).rsa? = .ok rootKey :=
  KeyInfo.rsa?_ofRsa (by decide +kernel) (by decide +kernel) (by decide +kernel)

/-- A document with that key and without extensions is accepted, if it is decoded. -/
theorem read_of_decode? {d : Document} (hkey : d.statement.key = .ofRsa rootKey)
    (hextensions : d.statement.extensions = none) (hdecode : Document.decode? d.encode = some d) :
    (Certificate.mk d rootKey []).Read := by
  refine .ofBytes d.encode ?_
  rw [Certificate.ofBytes, hdecode]
  simp only [Certificate.ofDocument, hkey, rootKey_read, Statement.usages?, hextensions]
  rfl

theorem read_rootCertificate : rootCertificate.Read := read_of_decode? rfl rfl (by decide +kernel)

theorem read_lastingCertificate : lastingCertificate.Read := read_of_decode? rfl rfl (by decide +kernel)

/-! ## The widest tolerance -/

/-- Of three certificates that were read, the validation has an answer exactly where the tolerance moves no date out of
the calendar that is looked at. It has one, at every time of the calendar, for all certificates that can be read exactly
with the tolerances up to the widest one, and then says what there is to report. -/
theorem validation_answers (config : TrustConfig) :
    (∀ h now, (∀ tier, (h.certificate tier).Read) →
        ((∃ v, validate? h now config.skew = some v) ↔ ∀ tier, Movable (h.certificate tier) now config.skew)) ∧
      ((∀ h now, (∀ tier, (h.certificate tier).Read) → now.inRange = true →
          ∃ v, validate? h now config.skew = some v ∧ v.Exact h now config.skew) ↔
        config.skew.millis ≤ widestTolerance.millis) := by
  have hs := skew_nonneg config
  refine ⟨fun h now hread => validate?_eq_some_iff hread hs, fun htotal => ?_, fun hwidest h now hread _ => ?_⟩
  · -- The certificate that does not expire must have an answer when it ends.
    have hread : ∀ tier, ((Hierarchy.ofOne lastingCertificate).certificate tier).Read := by
      simp [read_lastingCertificate]
    obtain ⟨v, hv, -⟩ := htotal (.ofOne lastingCertificate) lastDate hread (by decide)
    have hstop := ((validate?_eq_some_iff hread hs).mp ⟨v, hv⟩ .root).stop
    have hfrom : lastingCertificate.validFrom.millis ≤ lastDate.millis := by decide
    have hto : lastingCertificate.validTo = lastDate := by decide
    simp only [Hierarchy.certificate_ofOne, hto] at hstop
    simp only [widestTolerance, Instant.since]
    omega
  · obtain ⟨v, hv⟩ := (validate?_eq_some_iff hread hs).mpr fun tier => movable_of_le (hread tier) hwidest
    exact ⟨v, hv, exact_of_validate? hs hv⟩

theorem lastingCertificate_answered :
    (∀ tier, ((Hierarchy.ofOne lastingCertificate).certificate tier).Read) ∧ lastDate.inRange = true ∧
      ∃ v, validate? (.ofOne lastingCertificate) lastDate (TrustConfig.skew {}) = some v := by
  have hread : ∀ tier, ((Hierarchy.ofOne lastingCertificate).certificate tier).Read := by
    simp [read_lastingCertificate]
  have hnow : lastDate.inRange = true := by decide
  obtain ⟨v, hv, -⟩ := (validation_answers {}).2.mpr (by decide) _ _ hread hnow
  exact ⟨hread, hnow, v, hv⟩

/-- The largest tolerance there is in a configuration. -/
def largestTolerance : TrustConfig := { skewTolerance := 0xFFFFFFFFFFFFFFFF }

/-- With it there is no answer for certificates that are valid. -/
theorem largestTolerance_breaks :
    (∀ tier, ((Hierarchy.ofOne rootCertificate).certificate tier).Read) ∧
      Instant.inRange ⟨1735700000000⟩ = true ∧ rootCertificate.isValidAt ⟨1735700000000⟩ = true ∧
      validate? (.ofOne rootCertificate) ⟨1735700000000⟩ largestTolerance.skew = none := by
  refine ⟨by simp [read_rootCertificate], by decide, by decide, ?_⟩
  decide +kernel

end PolicySeal.Trust
