import PolicySeal.Proofs.Binding.Batch
import PolicySeal.Proofs.Binding.Separation
/-
  PolicySeal.Proofs.Binding.WellFormed — which parts of a verdict go together.

  A verdict has a fault exactly where it does not accept the policy, and a certificate exactly
  where a signature was checked under one (`Verdict.WellFormed`). This is so of the verdicts as
  they are made, and is not lost where warnings and certificates are put to them or one verdict
  is given for another; so it is of all verdicts, in whatever way a policy is verified, and
  of each in a batch (`verdicts_wellFormed`).
-/

namespace PolicySeal

open Trust

/-- The parts of a verdict go together. -/
structure Verdict.WellFormed (v : Verdict) : Prop where
  error : v.valid = false ↔ v.error.isSome = true
  failure : v.valid = false ↔ v.failure.isSome = true
  verified : v.status = .verified → v.valid = true ∧ (v.mechanism = .x509 ∨ v.mechanism = .hmac)
  failed : v.status = .failed → v.valid = false
  unchecked : v.status = .unsigned ∨ v.status = .unverified → v.mechanism = .none
  certificate : v.certificate.isSome = true ↔ v.status = .verified ∧ v.mechanism = .x509
  tamperChecked : v.isTamperChecked = true ↔ v.status = .verified
  /-- A signature that was checked is warned of only where its certificate is not for signatures. -/
  warnings : v.status = .verified → v.warnings ≠ [] →
    v.mechanism = .x509 ∧ ∃ info, v.certificate = some info ∧ .digitalSignature ∉ info.keyUsage

namespace Verdict

variable {v : Verdict}

/-! ## Verdicts as they are made -/

theorem wellFormed_failed (m : Mechanism) (f : Failure) (e : String) : (failed m f e).WellFormed := by
  constructor <;> simp [failed, isTamperChecked]

theorem wellFormed_unsigned (valid : Bool) : (unsigned valid).WellFormed := by
  constructor <;> cases valid <;> simp [unsigned, isTamperChecked]

theorem wellFormed_unverified (valid : Bool) (warning : String) : (unverified valid warning).WellFormed := by
  constructor <;> cases valid <;> simp [unverified, isTamperChecked]

theorem wellFormed_verified_hmac : (verified .hmac).WellFormed := by
  constructor <;> simp [verified, isTamperChecked]

theorem wellFormed_verified_x509 (info : CertificateInfo) :
    WellFormed { verified .x509 with certificate := some info } := by
  constructor <;> simp [verified, isTamperChecked]

/-- A warning may be put to a verdict on no checked signature, or under a certificate that is not for signatures. -/
theorem WellFormed.withWarning (h : v.WellFormed) (warning : String)
    (hwarn : v.status = .verified →
      v.mechanism = .x509 ∧ ∃ info, v.certificate = some info ∧ .digitalSignature ∉ info.keyUsage) :
    (v.withWarning warning).WellFormed :=
  ⟨h.error, h.failure, h.verified, h.failed, h.unchecked, h.certificate, h.tamperChecked, fun hstatus _ => hwarn hstatus⟩

end Verdict

namespace Service

variable {s : Service} {p : Policy}

/-! ## Ways of verifying -/

theorem wellFormed_keyVerdict (p : Policy) (h : Hash) (signature : Bytes) (c : Certificate) :
    (keyVerdict p h signature c).WellFormed := by
  rw [keyVerdict]
  split
  · have hverified := Verdict.wellFormed_verified_x509 c.info
    split
    · exact hverified
    · rename_i husage
      refine hverified.withWarning _ fun _ => ⟨rfl, c.info, rfl, ?_⟩
      intro hmem
      exact husage (List.contains_iff_mem.mpr hmem)
  · exact Verdict.wellFormed_failed _ _ _

theorem wellFormed_certificateParts {verdict : Verdict} (he : s.certificateParts p = .error verdict) : verdict.WellFormed := by
  unfold certificateParts at he
  split at he
  · cases he
    exact Verdict.wellFormed_unsigned false
  · simp only at he
    split at he
    · split at he <;> cases he
      exact Verdict.wellFormed_failed _ _ _
    · split at he <;> cases he
      exact Verdict.wellFormed_failed _ _ _
    · cases he
      exact Verdict.wellFormed_failed _ _ _
    · cases he
      exact Verdict.wellFormed_failed _ _ _

theorem yields_verifyUnder (h : Hash) (signature : Bytes) (c : Certificate) (verifyChain : Bool) :
    (s.verifyUnder p h signature c verifyChain).Yields Verdict.WellFormed := by
  rw [verifyUnder]
  intro now
  by_cases hdates : (!c.isValidAt now) = true
  · simp only [if_pos hdates]
    exact Verdict.wellFormed_failed _ _ _
  · simp only [if_neg hdates]
    split
    · refine Work.yields_bind _ fun chained => ?_
      cases chained with
      | true => exact wellFormed_keyVerdict p h signature c
      | false => exact Verdict.wellFormed_failed _ _ _
    · exact wellFormed_keyVerdict p h signature c

theorem yields_verifyAtPath (path : Path) (verifyChain : Bool) :
    (s.verifyAtPath p path verifyChain).Yields Verdict.WellFormed := by
  rw [verifyAtPath]
  split
  · exact wellFormed_certificateParts ‹_›
  · refine Work.yields_bind _ fun loaded => ?_
    cases loaded with
    | ok c => exact yields_verifyUnder _ _ c verifyChain
    | error fault => exact Verdict.wellFormed_failed _ _ _

theorem yields_verifyWithCertificate (text : String) (verifyChain : Bool) :
    (s.verifyWithCertificate p text verifyChain).Yields Verdict.WellFormed := by
  rw [verifyWithCertificate]
  split
  · exact wellFormed_certificateParts ‹_›
  · split
    · exact yields_verifyUnder _ _ _ verifyChain
    · exact Verdict.wellFormed_failed _ _ _

theorem wellFormed_secretHash {block : SignatureBlock} {verdict : Verdict} (he : secretHash block = .error verdict) :
    verdict.WellFormed := by
  unfold secretHash at he
  split at he <;> cases he <;> exact Verdict.wellFormed_failed _ _ _

theorem wellFormed_verifyWithSecret (p : Policy) (secret : Secret) : (verifyWithSecret p secret).WellFormed := by
  rw [verifyWithSecret]
  split
  · exact Verdict.wellFormed_unsigned false
  · split
    · exact wellFormed_secretHash ‹_›
    · split
      · exact Verdict.wellFormed_failed _ _ _
      · split
        · exact Verdict.wellFormed_failed _ _ _
        · split
          · exact Verdict.wellFormed_verified_hmac
          · exact Verdict.wellFormed_failed _ _ _

theorem wellFormed_unconfigured (warning : String) : (s.unconfigured warning).WellFormed :=
  Verdict.wellFormed_unverified _ _

theorem wellFormed_unsignedVerdict : s.unsignedVerdict.WellFormed := by
  rw [unsignedVerdict]
  split
  · exact Verdict.wellFormed_unsigned false
  · refine (Verdict.wellFormed_unsigned true).withWarning _ fun hstatus => ?_
    cases hstatus

theorem yields_verifyOpen : (s.verifyOpen p).Yields Verdict.WellFormed := by
  rw [verifyOpen]
  split
  · exact wellFormed_unconfigured _
  · exact wellFormed_verifyWithSecret p _
  · exact yields_verifyAtPath _ _
  · refine (yields_verifyAtPath _ _).bind fun verdict hverdict => ?_
    show Verdict.WellFormed (if verdict.valid then verdict else verifyWithSecret p _)
    split
    · exact hverdict
    · exact wellFormed_verifyWithSecret p _

theorem yields_verifyAuto (s : Service) (p : Policy) : (s.verifyAuto p).Yields Verdict.WellFormed := by
  rw [verifyAuto]
  split
  · exact wellFormed_unsignedVerdict
  · split
    · exact Verdict.wellFormed_failed _ _ _
    · split
      · exact yields_verifyAtPath _ _
      · exact wellFormed_unconfigured _
    · split
      · exact wellFormed_verifyWithSecret p _
      · exact wellFormed_unconfigured _
    · exact yields_verifyOpen

theorem yields_verifyBy (s : Service) (p : Policy) (way : Way) : (s.verifyBy p way).Yields Verdict.WellFormed := by
  cases way with
  | auto => exact yields_verifyAuto s p
  | default => exact yields_verifyAtPath _ _
  | certificate text verifyChain =>
    rw [verifyBy]
    exact yields_verifyWithCertificate text verifyChain
  | secret secret => exact wellFormed_verifyWithSecret p secret

/-! ## Many policies -/

theorem wellFormed_didNotComplete : didNotComplete.WellFormed := Verdict.wellFormed_failed _ _ _

/-- One after the other, all policies get a verdict. -/
theorem verifyAll_wellFormed (s : Service) (ps : List Policy) (store : Store) :
    ∃ verdicts, ((s.verifyAll ps).run store).1 = some verdicts ∧ verdicts.length = ps.length ∧
      ∀ v ∈ verdicts, v.WellFormed := by
  induction ps generalizing store with
  | nil => exact ⟨[], rfl, rfl, fun v hv => absurd hv List.not_mem_nil⟩
  | cons p ps ih =>
    obtain ⟨verdicts, hrun, hlength, hwell⟩ := ih ((s.verifyAuto p).run store).2
    let first : Option Verdict := ((s.verifyAuto p).run store).1
    have hfirst : (first.getD didNotComplete).WellFormed := by
      cases hverdict : first with
      | none => exact wellFormed_didNotComplete
      | some verdict => exact (yields_verifyAuto s p).run hverdict
    refine ⟨first.getD didNotComplete :: verdicts, ?_, congrArg (· + 1) hlength, List.forall_mem_cons.mpr ⟨hfirst, hwell⟩⟩
    refine Work.run_bind_eq_some_iff.mpr ⟨first, _, Work.run_attempt _ _, ?_⟩
    exact Work.run_bind_eq_some_iff.mpr ⟨verdicts, _, Prod.ext hrun rfl, rfl⟩

theorem wellFormed_kept (s : Service) :
    Batch.Kept s (fun _ => True) (fun _ w => w.Yields Verdict.WellFormed) Verdict.WellFormed where
  spawn _ p := yields_verifyAuto s p
  act _ hw hnext := ⟨trivial, hw.next? hnext, fun _ hu => hu⟩
  finish _ _ hv := hv

/-- In whatever way a policy is verified, the verdict is well-formed, and there is one as long as the source answers.
Of many policies each gets such a verdict, one after the other, and in a batch at any moment, whatever of its verdicts
are collected. -/
theorem verdicts_wellFormed (s : Service) :
    (∀ p way store, (store.Answers → ∃ verdict, ((s.verifyBy p way).run store).1 = some verdict) ∧
      ∀ verdict, ((s.verifyBy p way).run store).1 = some verdict → verdict.WellFormed) ∧
    (∀ ps store, ∃ verdicts, ((s.verifyAll ps).run store).1 = some verdicts ∧ verdicts.length = ps.length ∧
      ∀ verdict ∈ verdicts, verdict.WellFormed) ∧
    ∀ ps store b, Relation.ReflTransGen s.Step (.start store ps) b → ∀ arrived, arrived ⊆ b.verdicts →
      ∀ verdict ∈ Batch.collect ps.length arrived, verdict.WellFormed := by
  refine ⟨fun p way store => ⟨verifyBy_ends way store, fun verdict => (yields_verifyBy s p way).run⟩,
    verifyAll_wellFormed s, ?_⟩
  intro ps store b hrun arrived harrived verdict hverdict
  have hhas := s.wellFormed_kept.run trivial hrun
  rcases Batch.mem_collect hverdict with rfl | ⟨u, hu, rfl⟩
  · exact wellFormed_didNotComplete
  · exact hhas.verdicts u (harrived hu)

/-- The verdict on a tag that is verified. -/
theorem keyedPolicy_wellFormed :
    ((sealedNode.verifyBy (plainPolicy.withSignature keyedBlock) (.secret ⟨[7]⟩)).run emptyStore).1
        = some (.verified .hmac) ∧ (Verdict.verified .hmac).WellFormed := by
  have htag : verifyWithSecret (plainPolicy.withSignature keyedBlock) ⟨[7]⟩ = .verified .hmac :=
    Policy.verifyWithSecret_tag rfl rfl (show keyedBlock.algorithm = (Scheme.hmac .sha384).name from rfl)
      (by rw [Policy.tag, Policy.signedBytes_withSignature]; rfl)
  have hrun : ((sealedNode.verifyBy (plainPolicy.withSignature keyedBlock) (.secret ⟨[7]⟩)).run emptyStore).1
      = some (.verified .hmac) := congrArg some htag
  obtain ⟨hways, -, -⟩ := verdicts_wellFormed sealedNode
  exact ⟨hrun, (hways _ _ _).2 _ hrun⟩

end Service

end PolicySeal
