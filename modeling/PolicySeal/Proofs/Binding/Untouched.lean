import PolicySeal.Proofs.Binding.Separation
import PolicySeal.Proofs.Binding.Unchecked
/-
  PolicySeal.Proofs.Binding.Untouched — verdicts that are reached without the store.

  What is wrong with a signature block is found before any certificate is loaded. Unless the
  block asks for a certificate (`Policy.AsksForCertificate`), so that its algorithm is one and
  its value can be read, all stores are alike to those who verify it: they come to the same
  verdict in each of them, and leave even old entries in the cache (`decided_without_store`).
-/

namespace PolicySeal

open Trust

/-- The policy has a signature that is checked under a certificate, or may be, and its value can be read. -/
def Policy.AsksForCertificate (p : Policy) : Prop :=
  ∃ block v, p.signature = some block ∧ block.algorithm ∈ ["SHA384", "SHA512", "auto"] ∧
    decodeSignatureValue block.value = .ok v ∧ v ≠ []

/-- All of this work comes to one verdict in all stores, and leaves each store as it is. -/
def Indifferent {ι : Type} (w : ι → Work Verdict) : Prop :=
  ∃ verdict, ∀ i store, (w i).run store = (some verdict, store)

theorem indifferent_of_done {ι : Type} {w : ι → Work Verdict} {verdict : Verdict} (h : ∀ i, w i = .done verdict) :
    Indifferent w := by
  refine ⟨verdict, fun i store => ?_⟩
  rw [h i, Work.run_done]

namespace Service

variable {config : BindingConfig} {p : Policy}

theorem certificateHash_names {name : String} : (∃ h, CertificateHash config name h) ↔ name ∈ ["SHA384", "SHA512", "auto"] := by
  constructor
  · rintro ⟨h, hh⟩
    cases hh <;> decide
  · intro h
    simp only [List.mem_cons, List.not_mem_nil, or_false] at h
    rcases h with rfl | rfl | rfl
    · exact ⟨_, .sha384⟩
    · exact ⟨_, .sha512⟩
    · exact ⟨_, .auto⟩

/-- Where the policy does not ask for a certificate, there is a verdict in place of hash and bytes, wherever the
certificates of the node are. -/
theorem certificateParts_of_not_asks (config : BindingConfig) (h : ¬ p.AsksForCertificate) :
    ∃ verdict, ∀ paths, (Service.mk config paths).certificateParts p = .error verdict := by
  let s : Service := ⟨config, .under ⟨""⟩⟩
  have hpaths : ∀ paths, (Service.mk config paths).certificateParts p = s.certificateParts p := by
    intro paths
    simp only [certificateParts, s]
  cases hparts : s.certificateParts p with
  | error verdict => exact ⟨verdict, fun paths => (hpaths paths).trans hparts⟩
  | ok parts =>
    obtain ⟨block, hs, hhash, hvalue⟩ := certificateParts_eq_ok_iff.mp hparts
    have hname := certificateHash_names.mp ⟨_, hhash⟩
    exact absurd ⟨block, _, hs, hname, hvalue, ne_nil_of_decodeSignatureValue hvalue⟩ h

theorem verifyAtPath_of_error {s : Service} {verdict : Verdict} (hparts : s.certificateParts p = .error verdict)
    (path : Path) (verifyChain : Bool) : s.verifyAtPath p path verifyChain = .done verdict := by
  simp only [verifyAtPath, hparts]

/-- What there is to say on a signature with a secret. -/
def secretVerdict (s : Service) (p : Policy) : Verdict :=
  match s.config.secret with
  | some secret => verifyWithSecret p secret
  | none => s.unconfigured "HMAC policy signature present but no HMAC secret is configured"

/-- It is checked, or refused, without the store. -/
theorem verifyAuto_of_hmac {s : Service} {block : SignatureBlock} (hs : p.signature = some block)
    (hname : block.algorithm ∈ ["hmac", "sha384", "sha512"]) : s.verifyAuto p = .done (s.secretVerdict p) := by
  obtain ⟨h, hscheme⟩ := Scheme.ofName?_hmac_iff.mpr (by simpa using hname)
  simp only [verifyAuto, hs, hscheme, secretVerdict]
  cases s.config.secret <;> rfl

theorem verifyOpen_of_not_asks (h : ¬ (p.AsksForCertificate ∧ config.certificatePath.isSome = true)) :
    ∃ verdict, ∀ paths, (Service.mk config paths).verifyOpen p = .done verdict := by
  let s : Service := ⟨config, .under ⟨""⟩⟩
  cases hpath : config.certificatePath with
  | none =>
    cases hsecret : config.secret with
    | none => exact ⟨s.unconfigured _, fun paths => by simp only [verifyOpen, hpath, hsecret]; rfl⟩
    | some secret => exact ⟨verifyWithSecret p secret, fun paths => by simp only [verifyOpen, hpath, hsecret]⟩
  | some path =>
    obtain ⟨verdict, hparts⟩ := certificateParts_of_not_asks config fun hasks => h ⟨hasks, by rw [hpath]; rfl⟩
    have hconfigured : ∀ paths, (Service.mk config paths).verifyConfigured p path = .done verdict := by
      intro paths
      rw [verifyConfigured, verifyAtPath_of_error (hparts paths)]
    cases hsecret : config.secret with
    | none => exact ⟨verdict, fun paths => by simp only [verifyOpen, hpath, hsecret, hconfigured paths]⟩
    | some secret =>
      refine ⟨if verdict.valid then verdict else verifyWithSecret p secret, fun paths => ?_⟩
      simp only [verifyOpen, hpath, hsecret, hconfigured paths]
      rfl

theorem verifyAuto_of_not_asks (h : ¬ (p.AsksForCertificate ∧ config.certificatePath.isSome = true)) :
    ∃ verdict, ∀ paths, (Service.mk config paths).verifyAuto p = .done verdict := by
  let s : Service := ⟨config, .under ⟨""⟩⟩
  cases hs : p.signature with
  | none => exact ⟨s.unsignedVerdict, fun paths => by simp only [verifyAuto, hs]; rfl⟩
  | some block =>
    cases hscheme : Scheme.ofName? block.algorithm with
    | error fault =>
      exact ⟨.failed .none .unsupportedAlgorithm fault.message, fun paths => by simp only [verifyAuto, hs, hscheme]⟩
    | ok scheme =>
      cases scheme with
      | x509 k =>
        cases hpath : config.certificatePath with
        | none => exact ⟨s.unconfigured _, fun paths => by simp only [verifyAuto, hs, hscheme, hpath]; rfl⟩
        | some path =>
          obtain ⟨verdict, hparts⟩ := certificateParts_of_not_asks config fun hasks => h ⟨hasks, by rw [hpath]; rfl⟩
          refine ⟨verdict, fun paths => ?_⟩
          simp only [verifyAuto, hs, hscheme, hpath]
          exact verifyAtPath_of_error (hparts paths) _ _
      | hmac k =>
        have hname := Scheme.ofName?_hmac_iff.mp ⟨k, hscheme⟩
        exact ⟨s.secretVerdict p, fun paths => verifyAuto_of_hmac hs (by simpa using hname)⟩
      | auto =>
        obtain ⟨verdict, hopen⟩ := verifyOpen_of_not_asks h
        exact ⟨verdict, fun paths => by simp only [verifyAuto, hs, hscheme, hopen paths]⟩

/-- Unless its block asks for a certificate, a policy is verified without the store: in each way of verifying that looks
at certificates, all stores give the same verdict, whatever their clock, source, cache and paths, and for whatever text,
and are left as they are. If the block chooses the way, that is so too where no certificate is configured; and a block
that names a secret is then verified with no action on a store. -/
theorem decided_without_store (config : BindingConfig) (p : Policy) :
    (¬ (p.AsksForCertificate ∧ config.certificatePath.isSome = true) →
      Indifferent fun paths => (Service.mk config paths).verifyAuto p) ∧
    (¬ p.AsksForCertificate →
      (Indifferent fun paths => (Service.mk config paths).verifyWithDefault p) ∧
      Indifferent fun given : TrustPaths × String × Bool =>
        (Service.mk config given.1).verifyWithCertificate p given.2.1 given.2.2) ∧
    ∀ block, p.signature = some block → block.algorithm ∈ ["hmac", "sha384", "sha512"] →
      ∃ verdict, (∀ secret, config.secret = some secret → verdict = verifyWithSecret p secret) ∧
        ∀ paths, (Service.mk config paths).verifyAuto p = .done verdict := by
  refine ⟨fun h => ?_, fun h => ?_, fun block hs hname => ?_⟩
  · obtain ⟨verdict, hauto⟩ := verifyAuto_of_not_asks h
    exact indifferent_of_done hauto
  · obtain ⟨verdict, hparts⟩ := certificateParts_of_not_asks config h
    constructor
    · exact indifferent_of_done fun paths => verifyAtPath_of_error (hparts paths) _ _
    · have hgiven : ∀ given : TrustPaths × String × Bool,
          (Service.mk config given.1).verifyWithCertificate p given.2.1 given.2.2 = .done verdict := by
        intro given
        simp only [verifyWithCertificate, hparts given.1]
      exact indifferent_of_done hgiven
  · let s : Service := ⟨config, .under ⟨""⟩⟩
    refine ⟨s.secretVerdict p, fun secret hsecret => ?_, fun paths => verifyAuto_of_hmac hs hname⟩
    simp only [secretVerdict, s, hsecret]

/-- A policy whose signature block has no value. -/
def blankPolicy : Policy := plainPolicy.withSignature ⟨"SHA384", " ", "node", "2025-01-01T00:00:00Z"⟩

/-- A store that keeps an entry for too long. -/
def lateStore : Store := ⟨fun _ => .absent, ⟨0⟩, ⟨1⟩, [⟨⟨"signing.crt"⟩, rootCertificate, ⟨0⟩⟩]⟩

/-- It keeps the entry when a block without a value is refused, and when a tag is verified. -/
theorem lateStore_untouched :
    ¬ blankPolicy.AsksForCertificate ∧
      (sealedNode.verifyAuto blankPolicy).run lateStore
        = (((sealedNode.verifyAuto blankPolicy).run emptyStore).1, lateStore) ∧
      (sealedNode.verifyWithDefault blankPolicy).run lateStore
        = (((sealedNode.verifyWithDefault blankPolicy).run emptyStore).1, lateStore) ∧
      (sealedNode.verifyAuto (plainPolicy.withSignature keyedBlock)).run lateStore
        = (some (verifyWithSecret (plainPolicy.withSignature keyedBlock) ⟨[7]⟩), lateStore) := by
  have hblank : ¬ blankPolicy.AsksForCertificate := by
    rintro ⟨block, v, hs, -, hv, -⟩
    cases hs
    cases hv
  obtain ⟨hauto, hgiven, -⟩ := decided_without_store sealedNode.config blankPolicy
  obtain ⟨verdict, hverdict⟩ := hauto fun h => hblank h.1
  obtain ⟨⟨refusal, hrefusal⟩, -⟩ := hgiven hblank
  obtain ⟨-, -, hhmac⟩ := decided_without_store sealedNode.config (plainPolicy.withSignature keyedBlock)
  obtain ⟨tagged, htagged, hdone⟩ := hhmac keyedBlock rfl (by decide)
  refine ⟨hblank, ?_, ?_, ?_⟩
  · exact (hverdict sealedNode.paths lateStore).trans (by rw [hverdict sealedNode.paths emptyStore])
  · exact (hrefusal sealedNode.paths lateStore).trans (by rw [hrefusal sealedNode.paths emptyStore])
  · rw [← htagged ⟨[7]⟩ rfl]
    exact congrArg (Work.run · lateStore) (hdone sealedNode.paths)

end Service

end PolicySeal
