import PolicySeal.Proofs.Binding.Signing
import PolicySeal.Proofs.Trust.Work
/-
  PolicySeal.Proofs.Binding.Evidence — what a verified policy is evidence of.

  There are two kinds of evidence: a signature under the key of the configured certificate,
  loaded, within its dates and chained if that is asked for (`CertificateEvidence`), and the
  tag under the configured secret (`SecretEvidence`). Each way of verifying gives `verified`
  exactly on its kind and accepts nothing else (`Verdict.Strict`); only policies that cannot
  be checked are accepted unverified, and those not in production. So a signature block is
  verified exactly when there is evidence that fits its algorithm (`verifyAuto_verified_iff`),
  and the second attempt at a block that leaves its scheme open adds nothing but its own
  evidence.
-/

namespace PolicySeal

open Trust

/-! ## Algorithms -/

/-- The hashes that an algorithm stands for under a certificate. -/
inductive CertificateHash (config : BindingConfig) : String → Hash → Prop
  | sha384 : CertificateHash config "SHA384" .sha384
  | sha512 : CertificateHash config "SHA512" .sha512
  | auto : CertificateHash config "auto" config.defaultHash

/-- The hashes that an algorithm stands for with a secret. -/
inductive SecretHash : String → Hash → Prop
  | hmac : SecretHash "hmac" .sha384
  | sha384 : SecretHash "sha384" .sha384
  | sha512 : SecretHash "sha512" .sha512
  | auto : SecretHash "auto" .sha384

theorem certificateHash_iff {config : BindingConfig} {name : String} {h : Hash} : CertificateHash config name h ↔
    Scheme.ofName? name = .ok (.x509 h) ∨ Scheme.ofName? name = .ok .auto ∧ h = config.defaultHash := by
  constructor
  · intro hhash
    cases hhash with
    | sha384 => exact Or.inl rfl
    | sha512 => exact Or.inl rfl
    | auto => exact Or.inr ⟨rfl, rfl⟩
  · unfold Scheme.ofName?
    split <;> simp only [Except.ok.injEq, Scheme.x509.injEq, reduceCtorEq, false_and, or_false, false_or, true_and]
    · intro hhash
      subst hhash
      exact .sha384
    · intro hhash
      subst hhash
      exact .sha512
    · exact False.elim
    · exact False.elim
    · exact False.elim
    · intro hhash
      subst hhash
      exact .auto
    · exact False.elim

theorem secretHash_iff {name : String} {h : Hash} : SecretHash name h ↔
    Scheme.ofName? name = .ok (.hmac h) ∨ Scheme.ofName? name = .ok .auto ∧ h = .sha384 := by
  constructor
  · intro hhash
    cases hhash with
    | hmac => exact Or.inl rfl
    | sha384 => exact Or.inl rfl
    | sha512 => exact Or.inl rfl
    | auto => exact Or.inr ⟨rfl, rfl⟩
  · unfold Scheme.ofName?
    split <;> simp only [Except.ok.injEq, Scheme.hmac.injEq, reduceCtorEq, false_and, or_false, false_or, true_and]
    · exact False.elim
    · exact False.elim
    · intro hhash
      subst hhash
      exact .hmac
    · intro hhash
      subst hhash
      exact .sha384
    · intro hhash
      subst hhash
      exact .sha512
    · intro hhash
      subst hhash
      exact .auto
    · exact False.elim

theorem CertificateHash.unique {config : BindingConfig} {name : String} {h k : Hash} (hh : CertificateHash config name h)
    (hk : CertificateHash config name k) : h = k := by
  rw [certificateHash_iff] at hh hk
  rcases hh with hh | ⟨hh, rfl⟩
  · simp only [hh, Except.ok.injEq, Scheme.x509.injEq, reduceCtorEq, false_and, or_false] at hk
    exact hk
  · simp only [hh, Except.ok.injEq, reduceCtorEq, true_and, false_or] at hk
    exact hk.symm

theorem SecretHash.unique {name : String} {h k : Hash} (hh : SecretHash name h) (hk : SecretHash name k) : h = k := by
  rw [secretHash_iff] at hh hk
  rcases hh with hh | ⟨hh, rfl⟩
  · simp only [hh, Except.ok.injEq, Scheme.hmac.injEq, reduceCtorEq, false_and, or_false] at hk
    exact hk
  · simp only [hh, Except.ok.injEq, reduceCtorEq, true_and, false_or] at hk
    exact hk.symm

/-! ## Evidence -/

/-- The bytes are a signature of the policy under the configured certificate, which was loaded, is within its dates
and, where that is asked for, chained. -/
def CertificateEvidence (s : Service) (store : Store) (p : Policy) (algorithm : String) (signature : Bytes) : Prop :=
  ∃ h path c loaded, CertificateHash s.config algorithm h ∧ s.config.certificatePath = some path ∧
    (load path).run store = (some (.ok c), loaded) ∧ c.validFrom ≤ store.now ∧ store.now ≤ c.validTo ∧
    (s.config.verifyChain = true → ((isChained s.paths c).run loaded).1 = some true) ∧
    Rsa.verify c.key (.ofHash h) p.signedBytes signature = true

/-- The bytes are the whole tag of the policy under the configured secret, which is not empty. -/
def SecretEvidence (s : Service) (p : Policy) (algorithm : String) (signature : Bytes) : Prop :=
  ∃ h secret, SecretHash algorithm h ∧ s.config.secret = some secret ∧ secret.isEmpty = false ∧
    signature = Digest.hmac h secret.bytes p.signedBytes

section

variable {s : Service} {store : Store} {p : Policy} {name : String} {v : Bytes} {h : Hash}

/-- With the hash, the path and the certificate known, what is left are the dates, the chain and the key. -/
theorem certificateEvidence_iff {path : Path} {c : Certificate} {loaded : Store}
    (hhash : CertificateHash s.config name h) (hpath : s.config.certificatePath = some path)
    (hload : (load path).run store = (some (.ok c), loaded)) : CertificateEvidence s store p name v ↔
      (c.validFrom ≤ store.now ∧ store.now ≤ c.validTo) ∧
        (s.config.verifyChain = true → ((isChained s.paths c).run loaded).1 = some true) ∧
        p.matchesKey c.key h v = true := by
  constructor
  · intro hevidence
    obtain ⟨h', path', c', loaded', hhash', hpath', hload', hfrom, hto, hchain, hmatches⟩ := hevidence
    obtain rfl := hhash.unique hhash'
    rw [hpath] at hpath'
    cases hpath'
    rw [hload] at hload'
    cases hload'
    exact ⟨⟨hfrom, hto⟩, hchain, hmatches⟩
  · intro hevidence
    obtain ⟨⟨hfrom, hto⟩, hchain, hmatches⟩ := hevidence
    exact ⟨h, path, c, loaded, hhash, hpath, hload, hfrom, hto, hchain, hmatches⟩

theorem not_certificateEvidence_of_load {path : Path} {fault : Fault} {loaded : Store}
    (hpath : s.config.certificatePath = some path) (hload : (load path).run store = (some (.error fault), loaded)) :
    ¬ CertificateEvidence s store p name v := by
  intro hevidence
  obtain ⟨_, path', _, _, _, hpath', hload', _⟩ := hevidence
  rw [hpath] at hpath'
  cases hpath'
  rw [hload] at hload'
  cases hload'

theorem not_certificateEvidence_of_path (h : s.config.certificatePath = none) :
    ¬ CertificateEvidence s store p name v := by
  intro hevidence
  obtain ⟨_, _, _, _, _, hpath, _⟩ := hevidence
  rw [h] at hpath
  cases hpath

theorem not_certificateEvidence_of_hash (h : ∀ k, ¬ CertificateHash s.config name k) :
    ¬ CertificateEvidence s store p name v := by
  intro hevidence
  obtain ⟨k, _, _, _, hhash, _⟩ := hevidence
  exact h k hhash

/-- With the hash and the secret known, what is left is the tag. -/
theorem secretEvidence_iff {secret : Secret} (hhash : SecretHash name h) (hsecret : s.config.secret = some secret) :
    SecretEvidence s p name v ↔ secret.isEmpty = false ∧ v = p.tag secret h := by
  constructor
  · intro hevidence
    obtain ⟨h', secret', hhash', hsecret', hne, hv⟩ := hevidence
    obtain rfl := hhash.unique hhash'
    rw [hsecret] at hsecret'
    cases hsecret'
    exact ⟨hne, hv⟩
  · intro hevidence
    obtain ⟨hne, hv⟩ := hevidence
    exact ⟨h, secret, hhash, hsecret, hne, hv⟩

theorem not_secretEvidence_of_secret (h : s.config.secret = none) : ¬ SecretEvidence s p name v := by
  intro hevidence
  obtain ⟨_, _, _, hsecret, _⟩ := hevidence
  rw [h] at hsecret
  cases hsecret

theorem not_secretEvidence_of_hash (h : ∀ k, ¬ SecretHash name k) : ¬ SecretEvidence s p name v := by
  intro hevidence
  obtain ⟨k, _, hhash, _⟩ := hevidence
  exact h k hhash

end

/-! ## Strict verdicts -/

/-- A verdict that accepts nothing but what was checked. -/
def Verdict.Strict (v : Verdict) : Prop := v.valid = true ↔ v.status = .verified

theorem Verdict.strict_failed (m : Mechanism) (f : Failure) (e : String) : (failed m f e).Strict := by
  simp [Strict, failed]

theorem Verdict.strict_unsigned : (unsigned false).Strict := by simp [Strict, unsigned]

namespace Service

variable {s : Service} {p : Policy} {h : Hash} {signature : Bytes} {c : Certificate} {store : Store} {verdict : Verdict}

/-! ## Under a certificate -/

theorem keyVerdict_verified_iff : (keyVerdict p h signature c).Strict ∧
    ((keyVerdict p h signature c).status = .verified ↔ p.matchesKey c.key h signature = true) := by
  unfold keyVerdict
  split
  · rename_i hmatches
    split <;> simp [Verdict.Strict, Verdict.verified, Verdict.withWarning, hmatches]
  · rename_i hmatches
    simp [Verdict.Strict, Verdict.failed, hmatches]

theorem verifyUnder_verified_iff {verifyChain : Bool}
    (hrun : ((s.verifyUnder p h signature c verifyChain).run store).1 = some verdict) :
    verdict.Strict ∧ (verdict.status = .verified ↔ (c.validFrom ≤ store.now ∧ store.now ≤ c.validTo) ∧
      (verifyChain = true → ((isChained s.paths c).run store).1 = some true) ∧
      p.matchesKey c.key h signature = true) := by
  have hdates : c.isValidAt store.now = true ↔ c.validFrom ≤ store.now ∧ store.now ≤ c.validTo := by
    simp [Certificate.isValidAt]
  rw [verifyUnder, Work.run_clock] at hrun
  by_cases hvalid : c.isValidAt store.now = true
  · have hwithin := hdates.mp hvalid
    rw [if_neg (by simp [hvalid])] at hrun
    cases verifyChain with
    | false =>
      obtain rfl : keyVerdict p h signature c = verdict := by simpa using hrun
      simpa [hwithin] using keyVerdict_verified_iff
    | true =>
      rw [if_pos rfl, Work.run_bind_eq_some_iff] at hrun
      obtain ⟨chained, after, hchain, hverdict⟩ := hrun
      cases chained with
      | true =>
        obtain rfl : keyVerdict p h signature c = verdict := by simpa using hverdict
        simpa [hwithin, hchain] using keyVerdict_verified_iff
      | false =>
        obtain rfl : Verdict.failed .x509 .chainValidation "Certificate chain validation failed" = verdict := by
          simpa using hverdict
        exact ⟨Verdict.strict_failed _ _ _, by simp [Verdict.failed, hchain]⟩
  · have hwithin := mt hdates.mpr hvalid
    rw [if_pos (by simpa using hvalid)] at hrun
    obtain rfl := Option.some.inj hrun
    exact ⟨Verdict.strict_failed _ _ _, by simp [Verdict.failed, hwithin]⟩

theorem certificateParts_eq_ok_iff : s.certificateParts p = .ok (h, signature) ↔
    ∃ block, p.signature = some block ∧ CertificateHash s.config block.algorithm h ∧
      decodeSignatureValue block.value = .ok signature := by
  cases hs : p.signature with
  | none => simp [certificateParts, hs]
  | some block =>
    simp only [certificateParts, hs, Option.some.injEq, exists_eq_left', certificateHash_iff]
    cases Scheme.ofName? block.algorithm with
    | error fault => simp
    | ok scheme =>
      cases scheme with
      | x509 k => cases decodeSignatureValue block.value <;> simp
      | hmac k => simp
      | auto => cases decodeSignatureValue block.value <;> simp [eq_comm]

theorem certificateParts_error (he : s.certificateParts p = .error verdict) :
    verdict.Strict ∧ verdict.status ≠ .verified := by
  have hfailed : ∀ f e, (Verdict.failed .x509 f e).Strict ∧ (Verdict.failed .x509 f e).status ≠ .verified :=
    fun f e => ⟨Verdict.strict_failed _ f e, by simp [Verdict.failed]⟩
  unfold certificateParts at he
  split at he
  · cases he
    exact ⟨Verdict.strict_unsigned, by simp [Verdict.unsigned]⟩
  · simp only at he
    split at he
    · split at he <;> cases he
      exact hfailed _ _
    · split at he <;> cases he
      exact hfailed _ _
    · cases he
      exact hfailed _ _
    · cases he
      exact hfailed _ _

/-- Under the configured certificate, a block is verified exactly on evidence for its bytes. -/
theorem verifyConfigured_verified_iff {block : SignatureBlock} {path : Path} (hs : p.signature = some block)
    (hpath : s.config.certificatePath = some path)
    (hrun : ((s.verifyConfigured p path).run store).1 = some verdict) :
    verdict.Strict ∧ (verdict.status = .verified ↔ ∃ v, decodeSignatureValue block.value = .ok v ∧
      CertificateEvidence s store p block.algorithm v) := by
  rw [verifyConfigured, verifyAtPath] at hrun
  cases hparts : s.certificateParts p with
  | error early =>
    obtain ⟨hstrict, hne⟩ := certificateParts_error hparts
    rw [hparts] at hrun
    obtain rfl : early = verdict := by simpa using hrun
    refine ⟨hstrict, fun h => absurd h hne, ?_⟩
    intro hevidence
    obtain ⟨v, hv, h, _, _, _, hhash, _⟩ := hevidence
    have hok : s.certificateParts p = .ok (h, v) := certificateParts_eq_ok_iff.mpr ⟨block, hs, hhash, hv⟩
    rw [hparts] at hok
    cases hok
  | ok parts =>
    obtain ⟨h, v⟩ := parts
    obtain ⟨block', hs', hhash, hv⟩ := certificateParts_eq_ok_iff.mp hparts
    rw [hs] at hs'
    cases hs'
    simp only [hparts, Work.run_bind_eq_some_iff] at hrun
    obtain ⟨loaded, after, hload, hverdict⟩ := hrun
    simp only [hv, Except.ok.injEq, exists_eq_left']
    cases loaded with
    | error fault =>
      obtain rfl := Option.some.inj hverdict
      have hnone : ¬ CertificateEvidence s store p block.algorithm v := not_certificateEvidence_of_load hpath hload
      exact ⟨Verdict.strict_failed _ _ _, by simp [Verdict.failed, hnone]⟩
    | ok c =>
      obtain ⟨hstrict, hiff⟩ := verifyUnder_verified_iff hverdict
      rw [Work.now_of_run hload] at hiff
      exact ⟨hstrict, hiff.trans (certificateEvidence_iff hhash hpath hload).symm⟩

/-! ## With a secret -/

theorem secretHash_eq_ok_iff {block : SignatureBlock} : secretHash block = .ok h ↔ SecretHash block.algorithm h := by
  rw [secretHash_iff, secretHash]
  cases Scheme.ofName? block.algorithm with
  | error fault => simp
  | ok scheme => cases scheme <;> simp [eq_comm]

theorem secretHash_error {block : SignatureBlock} (he : secretHash block = .error verdict) :
    verdict.Strict ∧ verdict.status ≠ .verified := by
  unfold secretHash at he
  split at he <;> cases he
  all_goals exact ⟨Verdict.strict_failed _ _ _, by simp [Verdict.failed]⟩

/-- With the configured secret, a block is verified exactly on evidence for its bytes. -/
theorem verifyWithSecret_verified_iff {block : SignatureBlock} {secret : Secret} (hs : p.signature = some block)
    (hsecret : s.config.secret = some secret) :
    (verifyWithSecret p secret).Strict ∧ ((verifyWithSecret p secret).status = .verified ↔
      ∃ v, decodeSignatureValue block.value = .ok v ∧ SecretEvidence s p block.algorithm v) := by
  simp only [verifyWithSecret, hs]
  cases hhash : secretHash block with
  | error early =>
    obtain ⟨hstrict, hne⟩ := secretHash_error hhash
    refine ⟨hstrict, fun h => absurd h hne, ?_⟩
    intro hevidence
    obtain ⟨_, _, h, _, hh, _⟩ := hevidence
    rw [secretHash_eq_ok_iff.mpr hh] at hhash
    cases hhash
  | ok h =>
    simp only [secretEvidence_iff (secretHash_eq_ok_iff.mp hhash) hsecret]
    by_cases hempty : secret.isEmpty = true
    · rw [if_pos hempty]
      exact ⟨Verdict.strict_failed _ _ _, by simp [Verdict.failed, hempty]⟩
    · rw [if_neg hempty]
      cases hdecode : decodeSignatureValue block.value with
      | error reason => exact ⟨Verdict.strict_failed _ _ _, by simp [Verdict.failed]⟩
      | ok v =>
        by_cases hmatch : p.tag secret h = v
        · simp [Policy.matchesSecret, hmatch, hempty, Verdict.Strict, Verdict.verified]
        · simp [Policy.matchesSecret, hmatch, Ne.symm hmatch, Verdict.Strict, Verdict.failed]

/-! ## As the block says -/

/-- There is evidence for the bytes of the signature block. -/
def Evidence (s : Service) (store : Store) (p : Policy) : Prop :=
  ∃ block v, p.signature = some block ∧ decodeSignatureValue block.value = .ok v ∧
    (CertificateEvidence s store p block.algorithm v ∨ SecretEvidence s p block.algorithm v)

/-- Verified on evidence exactly, and in production accepted only so. -/
def Sound (s : Service) (store : Store) (p : Policy) (verdict : Verdict) : Prop :=
  (verdict.status = .verified ↔ Evidence s store p) ∧
    (s.config.profile = .production → verdict.valid = true → verdict.status = .verified)

theorem evidence_iff {block : SignatureBlock} (hs : p.signature = some block) : Evidence s store p ↔
    (∃ v, decodeSignatureValue block.value = .ok v ∧ CertificateEvidence s store p block.algorithm v) ∨
      ∃ v, decodeSignatureValue block.value = .ok v ∧ SecretEvidence s p block.algorithm v := by
  constructor
  · intro hevidence
    obtain ⟨block', v, hs', hv, hevidence⟩ := hevidence
    rw [hs] at hs'
    cases hs'
    exact hevidence.imp (fun h => ⟨v, hv, h⟩) fun h => ⟨v, hv, h⟩
  · intro hevidence
    rcases hevidence with ⟨v, hv, h⟩ | ⟨v, hv, h⟩
    · exact ⟨block, v, hs, hv, Or.inl h⟩
    · exact ⟨block, v, hs, hv, Or.inr h⟩

/-- Nothing is verified where nothing is configured, and nothing is accepted so in production. -/
theorem sound_unconfigured (warning : String) (h : ¬ Evidence s store p) : Sound s store p (s.unconfigured warning) := by
  refine ⟨⟨fun hv => by simp [unconfigured, Verdict.unverified] at hv, fun he => absurd he h⟩, fun hproduction hvalid => ?_⟩
  simp [unconfigured, Verdict.unverified, isProduction, hproduction] at hvalid

theorem sound_of_strict (hstrict : verdict.Strict) (hiff : verdict.status = .verified ↔ Evidence s store p) :
    Sound s store p verdict := ⟨hiff, fun _ => hstrict.mp⟩

/-- A block that leaves its scheme open is verified on either evidence. -/
theorem verifyOpen_sound {block : SignatureBlock} (hs : p.signature = some block)
    (hrun : ((s.verifyOpen p).run store).1 = some verdict) : Sound s store p verdict := by
  unfold verifyOpen at hrun
  split at hrun
  · rename_i hpath hsecret
    obtain rfl := Option.some.inj hrun
    refine sound_unconfigured _ ?_
    simp [evidence_iff hs, not_certificateEvidence_of_path hpath, not_secretEvidence_of_secret hsecret]
  · rename_i hpath hsecret
    obtain rfl := Option.some.inj hrun
    obtain ⟨hstrict, hiff⟩ := verifyWithSecret_verified_iff hs hsecret
    refine sound_of_strict hstrict ?_
    simp [evidence_iff hs, not_certificateEvidence_of_path hpath, hiff]
  · rename_i hpath hsecret
    obtain ⟨hstrict, hiff⟩ := verifyConfigured_verified_iff hs hpath hrun
    refine sound_of_strict hstrict ?_
    simp [evidence_iff hs, not_secretEvidence_of_secret hsecret, hiff]
  · -- Both are configured: the secret has its turn only where the certificate did not do.
    rename_i path secret hpath hsecret
    obtain ⟨first, after, hfirst, hverdict⟩ := Work.run_bind_eq_some_iff.mp hrun
    obtain ⟨hstrict₁, hiff₁⟩ := verifyConfigured_verified_iff hs hpath (congrArg Prod.fst hfirst)
    obtain ⟨hstrict₂, hiff₂⟩ := verifyWithSecret_verified_iff hs hsecret
    by_cases hvalid : first.valid = true
    · obtain rfl : first = verdict := by simpa [hvalid] using hverdict
      refine sound_of_strict hstrict₁ ?_
      have hverified := hstrict₁.mp hvalid
      simp [evidence_iff hs, hverified, hiff₁.mp hverified]
    · obtain rfl : verifyWithSecret p secret = verdict := by simpa [hvalid] using hverdict
      refine sound_of_strict hstrict₂ ?_
      have hnone := mt hiff₁.mpr (mt hstrict₁.mpr hvalid)
      rw [evidence_iff hs, hiff₂]
      simp only [hnone, false_or]

/-- A policy without a block is not verified, and in production not accepted. -/
theorem unsignedVerdict_sound (hs : p.signature = none) : Sound s store p s.unsignedVerdict := by
  have hnone : ¬ Evidence s store p := by
    intro hevidence
    obtain ⟨block, v, hblock, -⟩ := hevidence
    rw [hs] at hblock
    cases hblock
  refine ⟨⟨fun hv => ?_, fun he => absurd he hnone⟩, fun hproduction hvalid => ?_⟩
  · unfold unsignedVerdict at hv
    split at hv <;> simp [Verdict.unsigned, Verdict.withWarning] at hv
  · simp [unsignedVerdict, isProduction, hproduction, Verdict.unsigned] at hvalid

theorem verifyAuto_sound (hrun : ((s.verifyAuto p).run store).1 = some verdict) : Sound s store p verdict := by
  unfold verifyAuto at hrun
  split at hrun
  · rename_i hs
    obtain rfl := Option.some.inj hrun
    exact unsignedVerdict_sound hs
  · rename_i block hs
    split at hrun
    · rename_i fault hname
      obtain rfl := Option.some.inj hrun
      refine sound_of_strict (Verdict.strict_failed _ _ _) ?_
      have hcertificate : ∀ k, ¬ CertificateHash s.config block.algorithm k := by simp [certificateHash_iff, hname]
      have hsecret : ∀ k, ¬ SecretHash block.algorithm k := by simp [secretHash_iff, hname]
      simp [evidence_iff hs, not_certificateEvidence_of_hash hcertificate, not_secretEvidence_of_hash hsecret,
        Verdict.failed]
    · rename_i k hname
      have hno : ∀ k, ¬ SecretHash block.algorithm k := by simp [secretHash_iff, hname]
      split at hrun
      · rename_i path hpath
        obtain ⟨hstrict, hiff⟩ := verifyConfigured_verified_iff hs hpath hrun
        refine sound_of_strict hstrict ?_
        simp [evidence_iff hs, not_secretEvidence_of_hash hno, hiff]
      · rename_i hpath
        obtain rfl := Option.some.inj hrun
        refine sound_unconfigured _ ?_
        simp [evidence_iff hs, not_certificateEvidence_of_path hpath, not_secretEvidence_of_hash hno]
    · rename_i k hname
      have hno : ∀ k, ¬ CertificateHash s.config block.algorithm k := by simp [certificateHash_iff, hname]
      split at hrun
      · rename_i secret hsecret
        obtain rfl := Option.some.inj hrun
        obtain ⟨hstrict, hiff⟩ := verifyWithSecret_verified_iff hs hsecret
        refine sound_of_strict hstrict ?_
        simp [evidence_iff hs, not_certificateEvidence_of_hash hno, hiff]
      · rename_i hsecret
        obtain rfl := Option.some.inj hrun
        refine sound_unconfigured _ ?_
        simp [evidence_iff hs, not_certificateEvidence_of_hash hno, not_secretEvidence_of_secret hsecret]
    · exact verifyOpen_sound hs hrun

/-! ## There is a verdict -/

theorem verifyUnder_ends (verifyChain : Bool) : (s.verifyUnder p h signature c verifyChain).Ends := by
  apply Work.ends_clock
  intro now
  split
  · exact Work.ends_done _
  · split
    · apply (isChained_ends _ _).bind
      intro chained
      cases chained <;> exact Work.ends_done _
    · exact Work.ends_done _

theorem verifyConfigured_ends (path : Path) : (s.verifyConfigured p path).Ends := by
  unfold verifyConfigured verifyAtPath
  split
  · exact Work.ends_done _
  · apply (load_ends path).bind
    intro loaded
    cases loaded with
    | error fault => exact Work.ends_done _
    | ok c => exact verifyUnder_ends _

theorem verifyAuto_ends : (s.verifyAuto p).Ends := by
  unfold verifyAuto
  split
  · exact Work.ends_done _
  · split
    · exact Work.ends_done _
    · split
      · exact verifyConfigured_ends _
      · exact Work.ends_done _
    · split <;> exact Work.ends_done _
    · unfold verifyOpen
      split
      · exact Work.ends_done _
      · exact Work.ends_done _
      · exact verifyConfigured_ends _
      · exact (verifyConfigured_ends _).bind fun _ => Work.ends_done _

/-- There is a verdict on every policy, as long as the source of certificates answers. A verdict is `verified`
exactly where the signature block has bytes that are evidence under the configured certificate or the configured
secret, as its algorithm says; and in production nothing else is accepted. -/
theorem verifyAuto_verified_iff (s : Service) (p : Policy) (store : Store) :
    (store.Answers → ∃ verdict, ((s.verifyAuto p).run store).1 = some verdict) ∧
      ∀ verdict, ((s.verifyAuto p).run store).1 = some verdict →
        (verdict.status = .verified ↔ ∃ block v, p.signature = some block ∧ decodeSignatureValue block.value = .ok v ∧
          (CertificateEvidence s store p block.algorithm v ∨ SecretEvidence s p block.algorithm v)) ∧
        (s.config.profile = .production → verdict.valid = true → verdict.status = .verified) :=
  ⟨verifyAuto_ends store, fun _ hrun => verifyAuto_sound hrun⟩

/-- A node in production with a certificate and a secret. -/
def sealedNode : Service where
  config := { certificatePath := some ⟨"signing.crt"⟩, secret := some ⟨[7]⟩, profile := .production }
  paths := TrustPaths.layout .hub ⟨"certs"⟩

/-- The files of the node are gone. -/
def emptyStore : Store := ⟨fun _ => .absent, ⟨0⟩, ⟨0⟩, []⟩

def plainPolicy : Policy := .new "1.0" ⟨"SECRET", ["NLD"], [], none, [], "NLD", none, none, []⟩

/-- The tag of the policy, in a block that leaves its scheme open. -/
def taggedPolicy : Policy :=
  plainPolicy.withSignature ⟨"auto", Base64.encode (plainPolicy.tag ⟨[7]⟩ .sha384), "node", "2025-01-01T00:00:00Z"⟩

theorem taggedPolicy_verified :
    ∃ verdict, ((sealedNode.verifyAuto taggedPolicy).run emptyStore).1 = some verdict ∧
      verdict.status = .verified := by
  obtain ⟨hends, hverified⟩ := verifyAuto_verified_iff sealedNode taggedPolicy emptyStore
  obtain ⟨verdict, hrun⟩ := hends fun path => nofun
  have hbytes : taggedPolicy.signedBytes = plainPolicy.signedBytes := rfl
  refine ⟨verdict, hrun, (hverified verdict hrun).1.mpr ⟨_, _, rfl, Policy.decode_tag _ _ _, Or.inr ?_⟩⟩
  exact ⟨.sha384, ⟨[7]⟩, .auto, rfl, rfl, by rw [hbytes]; rfl⟩

end Service

end PolicySeal
