import PolicySeal.Trust.Chain
/-
  PolicySeal.Proofs.Trust.Chain — what the validation of a chain says, and when.

  For each tier the dates say at most one thing: an error outside the tolerated window, a
  warning inside it but outside the strict one, a warning when the strict one ends soon
  (`DatesSay`). The signatures say an error for each one that does not verify under the key
  it should (`VerifiesUnder`), the names a warning for each pair that does not match. That is
  all that is found, each of it once (`validate?_exact`); so a chain is valid exactly when
  the three certificates are within tolerance and linked by their signatures.
-/

namespace PolicySeal

open Time

/-! ## Signatures -/

/-- The signature of a certificate is one of the known algorithms, and verifies under the key. -/
def Certificate.VerifiesUnder (c : Certificate) (key : Rsa.PublicKey) : Prop :=
  ∃ h signature, Digest.Kind.ofSignatureOid? c.document.algorithm.oid = some h ∧
    c.document.signature.octets? = some signature ∧
    Rsa.verify key h c.document.statement.toElement.encode signature = true

theorem Certificate.issuance_eq_ok_iff {c issuer : Certificate} :
    c.issuance issuer = .ok () ↔ c.VerifiesUnder issuer.key := by
  rw [issuance]
  constructor
  · intro h
    split at h
    · cases h
    · rename_i hash hhash
      split at h
      · cases h
      · rename_i signature hsignature
        split at h
        · rename_i hverify
          exact ⟨hash, signature, hhash, hsignature, hverify⟩
        · cases h
  · rintro ⟨hash, signature, hhash, hsignature, hverify⟩
    simp only [hhash, hsignature, hverify, if_true]

namespace Trust

/-! ## Dates -/

/-- Within the dates of a certificate widened by the tolerance on both sides, ends included. -/
def Tolerated (c : Certificate) (now : Instant) (skew : Span) : Prop :=
  c.validFrom.millis - skew.millis ≤ now.millis ∧ now.millis ≤ c.validTo.millis + skew.millis

/-- What the dates of a certificate give to say. -/
inductive DatesSay (tier : Tier) (c : Certificate) (now : Instant) (skew : Span) : Finding → Prop
  | notYetValid : now.millis < c.validFrom.millis - skew.millis →
      DatesSay tier c now skew (.error (.notYetValid tier c.subject c.validFrom))
  | expired : c.validFrom.millis - skew.millis ≤ now.millis → c.validTo.millis + skew.millis < now.millis →
      DatesSay tier c now skew (.error (.expired tier c.subject c.validTo))
  | early : Tolerated c now skew → now.millis < c.validFrom.millis →
      DatesSay tier c now skew (.warning (.notYetValid tier c.subject c.validFrom))
  | late : Tolerated c now skew → c.validFrom.millis ≤ now.millis → c.validTo.millis < now.millis →
      DatesSay tier c now skew (.warning (.expired tier c.subject c.validTo))
  | soon : c.isValidAt now = true → c.validTo.millis - now.millis < expiryNotice.millis →
      DatesSay tier c now skew (.warning (.expiresSoon tier c.subject (c.validTo.since now).days))

/-- What a finding is about. -/
inductive Topic where
  | dates (tier : Tier)
  | issuance (tier : Tier)
  | names (tier : Tier)
  deriving DecidableEq

def Finding.topic : Finding → Topic
  | .error (.notYetValid tier _ _) => .dates tier
  | .error (.expired tier _ _) => .dates tier
  | .error (.notIssued tier _) => .issuance tier
  | .warning (.notYetValid tier _ _) => .dates tier
  | .warning (.expired tier _ _) => .dates tier
  | .warning (.expiresSoon tier _ _) => .dates tier
  | .warning (.otherIssuer tier _ _ _) => .names tier

section

variable {tier : Tier} {c : Certificate} {now : Instant} {skew : Span} {fs : List Finding} {f g : Finding}

theorem isValidAt_iff : c.isValidAt now = true ↔ c.validFrom.millis ≤ now.millis ∧ now.millis ≤ c.validTo.millis := by
  rw [Certificate.isValidAt, Bool.and_eq_true, decide_eq_true_iff, decide_eq_true_iff]
  rfl

theorem lt_iff_millis {t u : Instant} : t < u ↔ t.millis < u.millis := Iff.rfl

theorem millis_of_sub? {t u : Instant} {s : Span} (h : t.sub? s = some u) : u.millis = t.millis - s.millis := by
  simp only [Instant.sub?, Instant.add?, Option.ite_none_right_eq_some, Option.some.injEq] at h
  rw [← h.2]
  exact Int.add_neg_eq_sub

theorem millis_of_add? {t u : Instant} {s : Span} (h : t.add? s = some u) : u.millis = t.millis + s.millis := by
  simp only [Instant.add?, Option.ite_none_right_eq_some, Option.some.injEq] at h
  rw [← h.2]

/-- The dates give at most one thing to say. -/
theorem DatesSay.unique (hs : 0 ≤ skew.millis) (hf : DatesSay tier c now skew f) (hg : DatesSay tier c now skew g) :
    f = g := by
  cases hf <;> cases hg <;> first
    | rfl
    | grind [Tolerated, isValidAt_iff]

theorem datesSay_topic (h : DatesSay tier c now skew f) : f.topic = .dates tier := by
  cases h <;> rfl

/-- An error is found exactly outside the tolerated window. -/
theorem datesSay_error_iff : (∃ e, DatesSay tier c now skew (.error e)) ↔ ¬ Tolerated c now skew := by
  constructor
  · rintro ⟨e, h⟩ ⟨hfrom, hto⟩
    cases h <;> omega
  · intro h
    by_cases hfrom : now.millis < c.validFrom.millis - skew.millis
    · exact ⟨_, .notYetValid hfrom⟩
    · exact ⟨_, .expired (by omega) (by simp only [Tolerated] at h; omega)⟩

/-- The days that are named are whole, and fewer than thirty. -/
theorem days_of_soon (h : c.isValidAt now = true) (hsoon : c.validTo.millis - now.millis < expiryNotice.millis) :
    0 ≤ (c.validTo.since now).days ∧ (c.validTo.since now).days ≤ 29 := by
  have hnotice : expiryNotice.millis = 30 * 86400000 := rfl
  have hleft : 0 ≤ c.validTo.millis - now.millis := by
    have hto := (isValidAt_iff.mp h).2
    omega
  rw [Span.days, Instant.since, Int.tdiv_eq_ediv_of_nonneg hleft]
  omega

/-- Where the dates can be checked, what they give to say is found, and nothing else. -/
theorem checkDates?_spec (hs : 0 ≤ skew.millis) (h : checkDates? tier c now skew = some fs) :
    (fs = [] ∧ ∀ f, ¬ DatesSay tier c now skew f) ∨ ∃ f, fs = [f] ∧ DatesSay tier c now skew f := by
  simp only [checkDates?, lt_iff_millis] at h
  obtain ⟨start, hstart, h⟩ := Option.bind_eq_some_iff.mp h
  have hstart := millis_of_sub? hstart
  by_cases hnotYet : now.millis < start.millis
  · rw [if_pos hnotYet] at h
    cases h
    exact Or.inr ⟨_, rfl, .notYetValid (hstart ▸ hnotYet)⟩
  rw [if_neg hnotYet] at h
  obtain ⟨stop, hstop, h⟩ := Option.bind_eq_some_iff.mp h
  have hstop := millis_of_add? hstop
  by_cases hexpired : stop.millis < now.millis
  · rw [if_pos hexpired] at h
    cases h
    exact Or.inr ⟨_, rfl, .expired (by omega) (hstop ▸ hexpired)⟩
  rw [if_neg hexpired] at h
  have htolerated : Tolerated c now skew := ⟨by omega, by omega⟩
  by_cases hearly : now.millis < c.validFrom.millis
  · rw [if_pos hearly] at h
    cases h
    exact Or.inr ⟨_, rfl, .early htolerated hearly⟩
  rw [if_neg hearly] at h
  by_cases hlate : c.validTo.millis < now.millis
  · rw [if_pos hlate] at h
    cases h
    exact Or.inr ⟨_, rfl, .late htolerated (by omega) hlate⟩
  rw [if_neg hlate] at h
  have hstrict : c.isValidAt now = true := isValidAt_iff.mpr ⟨by omega, by omega⟩
  by_cases hsoon : c.validTo.millis - now.millis < expiryNotice.millis
  · have hfs : fs = [.warning (.expiresSoon tier c.subject (c.validTo.since now).days)] := by
      rw [← Option.some.inj h]
      exact if_pos hsoon
    exact Or.inr ⟨_, hfs, .soon hstrict hsoon⟩
  · have hfs : fs = [] := by
      rw [← Option.some.inj h]
      exact if_neg hsoon
    refine Or.inl ⟨hfs, fun f hf => ?_⟩
    cases hf with
    | notYetValid h => omega
    | expired _ h => omega
    | early _ h => omega
    | late _ _ h => omega
    | soon _ h => exact hsoon h

theorem checkDates?_isSome (hfrom : (c.validFrom.sub? skew).isSome) (hto : (c.validTo.add? skew).isSome) :
    ∃ fs, checkDates? tier c now skew = some fs := by
  obtain ⟨start, hstart⟩ := Option.isSome_iff_exists.mp hfrom
  obtain ⟨stop, hstop⟩ := Option.isSome_iff_exists.mp hto
  simp only [checkDates?, hstart, hstop, Option.bind_eq_bind, Option.bind_some]
  repeat' split
  all_goals exact ⟨_, rfl⟩

theorem mem_checkDates? (hs : 0 ≤ skew.millis) (h : checkDates? tier c now skew = some fs) :
    f ∈ fs ↔ DatesSay tier c now skew f := by
  rcases checkDates?_spec hs h with ⟨rfl, hnone⟩ | ⟨g, rfl, hg⟩
  · simp [hnone]
  · rw [List.mem_singleton]
    exact ⟨fun h => h ▸ hg, fun hf => hf.unique hs hg⟩

theorem topics_checkDates? (hs : 0 ≤ skew.millis) (h : checkDates? tier c now skew = some fs) :
    (fs.map Finding.topic).Sublist [.dates tier] := by
  rcases checkDates?_spec hs h with ⟨rfl, -⟩ | ⟨f, rfl, hf⟩
  · exact List.nil_sublist _
  · simp [datesSay_topic hf]

/-! ## Links -/

variable {above : Tier} {issuer : Certificate}

theorem mem_checkIssuance : f ∈ checkIssuance tier c issuer ↔
    ∃ reason, c.issuance issuer = .error reason ∧ f = .error (.notIssued tier reason) := by
  rw [checkIssuance]
  cases c.issuance issuer with
  | ok => simp
  | error reason => simp

theorem topics_checkIssuance : ((checkIssuance tier c issuer).map Finding.topic).Sublist [.issuance tier] := by
  rw [checkIssuance]
  cases c.issuance issuer with
  | ok => exact List.nil_sublist _
  | error reason => exact List.Sublist.refl _

theorem mem_checkNames : f ∈ checkNames tier c above issuer ↔
    c.issuer ≠ issuer.subject ∧ f = .warning (.otherIssuer tier c.issuer above issuer.subject) := by
  rw [checkNames]
  split
  · rename_i h
    simp [h]
  · rename_i h
    simp [h]

theorem topics_checkNames : ((checkNames tier c above issuer).map Finding.topic).Sublist [.names tier] := by
  rw [checkNames]
  split
  · exact List.nil_sublist _
  · exact List.Sublist.refl _

end

/-! ## Chains -/

def Hierarchy.certificate (h : Hierarchy) : Tier → Certificate
  | .root => h.root
  | .intermediate => h.intermediate
  | .signing => h.signing

/-- The tier whose key a certificate is to be signed with. -/
def Tier.issuer : Tier → Tier
  | .root => .root
  | .intermediate => .root
  | .signing => .intermediate

/-- All that there is to report about a chain. -/
inductive Reported (h : Hierarchy) (now : Instant) (skew : Span) : Finding → Prop
  | dates (tier : Tier) {f : Finding} : DatesSay tier (h.certificate tier) now skew f → Reported h now skew f
  | issuance (tier : Tier) {reason : Certificate.NotIssuedBy} :
      (h.certificate tier).issuance (h.certificate tier.issuer) = .error reason →
      Reported h now skew (.error (.notIssued tier reason))
  | names (tier : Tier) : tier ≠ .root → (h.certificate tier).issuer ≠ (h.certificate tier.issuer).subject →
      Reported h now skew
        (.warning (.otherIssuer tier (h.certificate tier).issuer tier.issuer (h.certificate tier.issuer).subject))

/-- The validation says what there is to report, each of it once, and is valid without errors only. -/
structure Validation.Exact (v : Validation) (h : Hierarchy) (now : Instant) (skew : Span) : Prop where
  valid : v.isValid = true ↔ (∀ tier, Tolerated (h.certificate tier) now skew) ∧
    ∀ tier, (h.certificate tier).VerifiesUnder (h.certificate tier.issuer).key
  reported : ∀ f, f ∈ v.findings ↔ Reported h now skew f
  once : (v.findings.map Finding.topic).Nodup
  days : ∀ tier subject days, .warning (.expiresSoon tier subject days) ∈ v.findings → 0 ≤ days ∧ days ≤ 29

section

variable {h : Hierarchy} {now : Instant} {skew : Span} {v : Validation} {f : Finding}

theorem Validation.mem_errors {e : ChainError} : e ∈ v.errors ↔ .error e ∈ v.findings := by
  rw [errors, List.mem_filterMap]
  constructor
  · rintro ⟨f, hf, he⟩
    cases f <;> cases he
    exact hf
  · exact fun hf => ⟨_, hf, rfl⟩

theorem Validation.isValid_iff : v.isValid = true ↔ ∀ e, .error e ∉ v.findings := by
  rw [isValid, List.isEmpty_iff, List.eq_nil_iff_forall_not_mem]
  exact forall_congr' fun e => not_congr mem_errors

theorem mem_checkLinks : f ∈ checkLinks h ↔
    (∃ tier, f ∈ checkIssuance tier (h.certificate tier) (h.certificate tier.issuer)) ∨
      ∃ tier, tier ≠ .root ∧ f ∈ checkNames tier (h.certificate tier) tier.issuer (h.certificate tier.issuer) := by
  simp only [checkLinks, List.mem_append]
  constructor
  · rintro ((((hf | hf) | hf) | hf) | hf)
    · exact Or.inl ⟨.signing, hf⟩
    · exact Or.inl ⟨.intermediate, hf⟩
    · exact Or.inl ⟨.root, hf⟩
    · exact Or.inr ⟨.signing, nofun, hf⟩
    · exact Or.inr ⟨.intermediate, nofun, hf⟩
  · rintro (⟨tier, hf⟩ | ⟨tier, hne, hf⟩)
    · cases tier with
      | root => exact Or.inl (Or.inl (Or.inr hf))
      | intermediate => exact Or.inl (Or.inl (Or.inl (Or.inr hf)))
      | signing => exact Or.inl (Or.inl (Or.inl (Or.inl hf)))
    · cases tier with
      | root => exact absurd rfl hne
      | intermediate => exact Or.inr hf
      | signing => exact Or.inl (Or.inr hf)

theorem topics_checkLinks : ((checkLinks h).map Finding.topic).Sublist
    ([.issuance .signing] ++ [.issuance .intermediate] ++ [.issuance .root] ++ [.names .signing] ++ [.names .intermediate]) := by
  simp only [checkLinks, List.map_append]
  exact (((topics_checkIssuance.append topics_checkIssuance).append topics_checkIssuance).append topics_checkNames).append
    topics_checkNames

/-- What there is to report decides whether the chain is valid. -/
theorem no_error_reported_iff : (∀ e, ¬ Reported h now skew (.error e)) ↔
    (∀ tier, Tolerated (h.certificate tier) now skew) ∧
      ∀ tier, (h.certificate tier).VerifiesUnder (h.certificate tier.issuer).key := by
  constructor
  · intro hnone
    refine ⟨fun tier => ?_, fun tier => ?_⟩
    · refine Classical.byContradiction fun hout => ?_
      obtain ⟨e, he⟩ := datesSay_error_iff.mpr hout
      exact hnone e (.dates tier he)
    · cases hi : (h.certificate tier).issuance (h.certificate tier.issuer) with
      | ok => exact Certificate.issuance_eq_ok_iff.mp hi
      | error reason => exact absurd (.issuance tier hi) (hnone _)
  · rintro ⟨hdates, hlinks⟩ e he
    cases he with
    | dates tier he => exact datesSay_error_iff.mp ⟨e, he⟩ (hdates tier)
    | issuance tier hi =>
      rw [Certificate.issuance_eq_ok_iff.mpr (hlinks tier)] at hi
      cases hi

/-- A validation says what there is to report. -/
theorem exact_of_validate? (hs : 0 ≤ skew.millis) (hv : validate? h now skew = some v) : v.Exact h now skew := by
  obtain ⟨signing, hsigning, hv⟩ := Option.bind_eq_some_iff.mp hv
  obtain ⟨intermediate, hintermediate, hv⟩ := Option.bind_eq_some_iff.mp hv
  obtain ⟨root, hroot, hv⟩ := Option.bind_eq_some_iff.mp hv
  cases hv
  have hreported : ∀ f, f ∈ signing ++ intermediate ++ root ++ checkLinks h ↔ Reported h now skew f := by
    intro f
    simp only [List.mem_append, mem_checkDates? hs hsigning, mem_checkDates? hs hintermediate, mem_checkDates? hs hroot,
      mem_checkLinks, mem_checkIssuance, mem_checkNames]
    constructor
    · rintro (((hf | hf) | hf) | ⟨tier, reason, hi, rfl⟩ | ⟨tier, hne, hn, rfl⟩)
      · exact .dates .signing hf
      · exact .dates .intermediate hf
      · exact .dates .root hf
      · exact .issuance tier hi
      · exact .names tier hne hn
    · intro hf
      cases hf with
      | dates tier hf =>
        cases tier with
        | root => exact Or.inl (Or.inr hf)
        | intermediate => exact Or.inl (Or.inl (Or.inr hf))
        | signing => exact Or.inl (Or.inl (Or.inl hf))
      | issuance tier hi => exact Or.inr (Or.inl ⟨tier, _, hi, rfl⟩)
      | names tier hne hn => exact Or.inr (Or.inr ⟨tier, hne, hn, rfl⟩)
  refine ⟨?_, hreported, ?_, fun tier subject days hdays => ?_⟩
  · rw [Validation.isValid_iff, ← no_error_reported_iff]
    exact forall_congr' fun e => not_congr (hreported _)
  · simp only [List.map_append]
    refine List.Nodup.sublist ((((topics_checkDates? hs hsigning).append (topics_checkDates? hs hintermediate)).append
      (topics_checkDates? hs hroot)).append topics_checkLinks) ?_
    decide
  · cases (hreported _).mp hdays with
    | dates tier hd =>
      cases hd with
      | soon hstrict hsoon => exact days_of_soon hstrict hsoon

/-- Where no date moved by the tolerance leaves the calendar, three certificates are a valid chain exactly when each is
within its tolerated dates and its signature verifies under the key of the tier above it, that of the root under its
own. The findings are those there are to report: what the dates of a tier say, at most one thing, with a number of days
below thirty; a signature that does not verify; two names that do not match. -/
theorem validate?_exact (h : Hierarchy) (now : Instant) (hs : 0 ≤ skew.millis)
    (hrange : ∀ tier, ((h.certificate tier).validFrom.sub? skew).isSome ∧ ((h.certificate tier).validTo.add? skew).isSome) :
    ∃ v, validate? h now skew = some v ∧ v.Exact h now skew := by
  have hchecked : ∀ tier, ∃ fs, checkDates? tier (h.certificate tier) now skew = some fs :=
    fun tier => checkDates?_isSome (hrange tier).1 (hrange tier).2
  obtain ⟨signing, hsigning⟩ := hchecked .signing
  obtain ⟨intermediate, hintermediate⟩ := hchecked .intermediate
  obtain ⟨root, hroot⟩ := hchecked .root
  simp only [Hierarchy.certificate] at hsigning hintermediate hroot
  have hv : validate? h now skew = some ⟨signing ++ intermediate ++ root ++ checkLinks h⟩ := by
    simp only [validate?, hsigning, hintermediate, hroot, Option.bind_eq_bind, Option.bind_some]
    rfl
  exact ⟨_, hv, exact_of_validate? hs hv⟩

/-! ## Signatures alone -/

theorem not_notIssued_of_checkDates? {tier : Tier} {c : Certificate} {fs : List Finding}
    (h : checkDates? tier c now skew = some fs) (other : Tier) (reason : Certificate.NotIssuedBy) :
    .error (.notIssued other reason) ∉ fs := by
  simp only [checkDates?, lt_iff_millis] at h
  obtain ⟨start, -, h⟩ := Option.bind_eq_some_iff.mp h
  split at h
  · cases h
    simp
  · obtain ⟨stop, -, h⟩ := Option.bind_eq_some_iff.mp h
    repeat' split at h
    all_goals
      cases h
      simp

/-- A signature is reported exactly where it does not verify, whatever there is to say about dates. -/
theorem mem_notIssued_iff (hv : validate? h now skew = some v) {tier : Tier} {reason : Certificate.NotIssuedBy} :
    .notIssued tier reason ∈ v.errors ↔ (h.certificate tier).issuance (h.certificate tier.issuer) = .error reason := by
  obtain ⟨signing, hsigning, hv⟩ := Option.bind_eq_some_iff.mp hv
  obtain ⟨intermediate, hintermediate, hv⟩ := Option.bind_eq_some_iff.mp hv
  obtain ⟨root, hroot, hv⟩ := Option.bind_eq_some_iff.mp hv
  cases hv
  simp only [Validation.mem_errors, List.mem_append, not_notIssued_of_checkDates? hsigning,
    not_notIssued_of_checkDates? hintermediate, not_notIssued_of_checkDates? hroot, mem_checkLinks, mem_checkIssuance,
    mem_checkNames, false_or]
  constructor
  · rintro (⟨other, r, hr, heq⟩ | ⟨other, -, -, heq⟩)
    · cases heq
      exact hr
    · cases heq
  · intro hr
    exact Or.inl ⟨tier, reason, hr, rfl⟩

/-! ## A certificate that is valid for a year -/

def rootName : X509.Name where
  parts := [⟨[⟨.ofArcs [2, 5, 4, 3], ⟨Der.Tag.utf8String, [0x52, 0x6F, 0x6F, 0x74]⟩⟩], List.pairwise_singleton _ _⟩]

def rootKey : Rsa.PublicKey where
  modulus := 0xD6BA681E1C415204F2DB7F0E2F2952A10DA6BFC9335A7617AE5C738B333F94E306B0875ED69E59E20F70DEAE97DF141F2B953745E4242C4C5D27DCF8B6E0C6C7
  exponent := 3

def rootSignature : Nat :=
  0xD3DF7796B1CC1EC01E9EB717AB547A4BD4EB9C37DC85C4E5A5D271853ED3F3D03BABA51EAEF1D4377D8CC6DC008E720B0650A992292D330FA8ABC94171A90314

def rootDocument : X509.Document where
  statement :=
    { version := 0, serial := [1], algorithm := .plain (X509.AlgorithmId.rsaFamily 11), issuer := rootName
      validity := ⟨⟨.utc, 1735689600⟩, ⟨.utc, 1767225600⟩⟩, subject := rootName, key := .ofRsa rootKey
      issuerId := none, subjectId := none, extensions := none }
  algorithm := .plain (X509.AlgorithmId.rsaFamily 11)
  signature := .ofBytes (Bytes.ofNat 64 rootSignature)

/-- Signed with its own key, valid in 2025. -/
def rootCertificate : Certificate := ⟨rootDocument, rootKey, []⟩

theorem rootCertificate_verifiesUnder : rootCertificate.VerifiesUnder rootCertificate.key :=
  ⟨.sha256, Bytes.ofNat 64 rootSignature, by decide +kernel, rfl, by decide +kernel⟩

theorem rootCertificate_accepted_late :
    ∃ v, validate? ⟨rootCertificate, rootCertificate, rootCertificate⟩ ⟨1767225660000⟩ (.ofMinutes 5) = some v ∧
      v.isValid = true ∧
      .warning (.expired .root rootCertificate.subject rootCertificate.validTo) ∈ v.findings := by
  let h : Hierarchy := ⟨rootCertificate, rootCertificate, rootCertificate⟩
  let skew : Span := .ofMinutes 5
  have hall : ∀ tier, h.certificate tier = rootCertificate := fun tier => by cases tier <;> rfl
  have hrange : (rootCertificate.validFrom.sub? skew).isSome ∧ (rootCertificate.validTo.add? skew).isSome := by
    decide +kernel
  have hskew : 0 ≤ skew.millis := by decide
  obtain ⟨v, hv, hexact⟩ := validate?_exact h ⟨1767225660000⟩ hskew fun tier => by
    rw [hall]
    exact hrange
  have htolerated : Tolerated rootCertificate ⟨1767225660000⟩ (.ofMinutes 5) := by
    constructor <;> decide +kernel
  refine ⟨v, hv, hexact.valid.mpr ⟨fun tier => ?_, fun tier => ?_⟩, (hexact.reported _).mpr ?_⟩
  · rw [hall]
    exact htolerated
  · rw [hall, hall]
    exact rootCertificate_verifiesUnder
  · exact .dates .root (.late htolerated (by decide +kernel) (by decide +kernel))

end

end Trust

end PolicySeal
