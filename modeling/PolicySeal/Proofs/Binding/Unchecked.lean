import PolicySeal.Proofs.Binding.Evidence
import PolicySeal.Proofs.Config.Environment
/-
  PolicySeal.Proofs.Binding.Unchecked — where a policy is accepted without a check.

  A verdict that comes of looking at a signature is strict, so it accepts nothing unchecked.
  What is left are the policies without a signature and those whose signature nothing is
  configured to check (`Uncheckable`), and both are accepted in development only
  (`acceptsUnchecked_iff`). With the configuration of an environment this comes down to its
  variables (`ofEnvironment_acceptsUnchecked_iff`).
-/

namespace PolicySeal

open Trust

/-! ## Algorithms -/

namespace Scheme

theorem ofName?_x509_iff {name : String} :
    (∃ h, ofName? name = .ok (.x509 h)) ↔ name = "SHA384" ∨ name = "SHA512" := by
  unfold ofName?
  split <;> simp_all

theorem ofName?_hmac_iff {name : String} :
    (∃ h, ofName? name = .ok (.hmac h)) ↔ name = "hmac" ∨ name = "sha384" ∨ name = "sha512" := by
  unfold ofName?
  split <;> simp_all

theorem ofName?_auto_iff {name : String} : ofName? name = .ok .auto ↔ name = "auto" := by
  unfold ofName?
  split <;> simp_all

end Scheme

/-! ## Policies that cannot be checked -/

/-- There is no signature, or nothing to check it with: its algorithm asks for a certificate, for a secret, or for
either. -/
inductive Uncheckable (noCertificate noSecret : Prop) (p : Policy) : Prop
  | unsigned (hs : p.signature = none)
  | byCertificate (block : SignatureBlock) (hs : p.signature = some block)
      (hname : block.algorithm = "SHA384" ∨ block.algorithm = "SHA512") (hc : noCertificate)
  | bySecret (block : SignatureBlock) (hs : p.signature = some block)
      (hname : block.algorithm = "hmac" ∨ block.algorithm = "sha384" ∨ block.algorithm = "sha512") (hk : noSecret)
  | byEither (block : SignatureBlock) (hs : p.signature = some block) (hname : block.algorithm = "auto")
      (hc : noCertificate) (hk : noSecret)

/-- Accepted, though no signature was checked. -/
def Verdict.AcceptsUnchecked (v : Verdict) : Prop := v.valid = true ∧ v.isTamperChecked = false

theorem Verdict.Strict.not_acceptsUnchecked {v : Verdict} (h : v.Strict) : ¬ v.AcceptsUnchecked := by
  rintro ⟨hvalid, hunchecked⟩
  simp [isTamperChecked, hvalid, h.mp hvalid] at hunchecked

namespace Service

variable {s : Service} {p : Policy} {store : Store} {verdict : Verdict}

theorem isProduction_eq_false_iff : s.isProduction = false ↔ s.config.profile = .development := by
  rw [isProduction]
  cases s.config.profile <;> decide

theorem unconfigured_acceptsUnchecked_iff {warning : String} :
    (s.unconfigured warning).AcceptsUnchecked ↔ s.config.profile = .development := by
  rw [← isProduction_eq_false_iff]
  simp [Verdict.AcceptsUnchecked, unconfigured, Verdict.unverified, Verdict.isTamperChecked]

theorem unsignedVerdict_acceptsUnchecked_iff :
    s.unsignedVerdict.AcceptsUnchecked ↔ s.config.profile = .development := by
  rw [← isProduction_eq_false_iff, unsignedVerdict]
  cases s.isProduction <;>
    simp [Verdict.AcceptsUnchecked, Verdict.unsigned, Verdict.withWarning, Verdict.isTamperChecked]

/-- The policy is accepted, and no signature of it was checked. -/
def AcceptsUnchecked (s : Service) (store : Store) (p : Policy) : Prop :=
  ∃ verdict, ((s.verifyAuto p).run store).1 = some verdict ∧ verdict.AcceptsUnchecked

theorem acceptsUnchecked_of_done (h : s.verifyAuto p = .done verdict) :
    s.AcceptsUnchecked store p ↔ verdict.AcceptsUnchecked := by
  simp [AcceptsUnchecked, h]

theorem not_acceptsUnchecked_of_strict
    (h : ∀ verdict, ((s.verifyAuto p).run store).1 = some verdict → verdict.Strict) : ¬ s.AcceptsUnchecked store p := by
  rintro ⟨verdict, hrun, hunchecked⟩
  exact (h verdict hrun).not_acceptsUnchecked hunchecked

/-- A block that leaves its scheme open gets a strict verdict wherever something is configured. -/
theorem verifyOpen_strict {block : SignatureBlock} (hs : p.signature = some block)
    (hconfigured : ¬ (s.config.certificatePath = none ∧ s.config.secret = none))
    (hrun : ((s.verifyOpen p).run store).1 = some verdict) : verdict.Strict := by
  unfold verifyOpen at hrun
  split at hrun
  · rename_i hpath hsecret
    exact absurd ⟨hpath, hsecret⟩ hconfigured
  · rename_i hpath hsecret
    obtain rfl := Option.some.inj hrun
    exact (verifyWithSecret_verified_iff hs hsecret).1
  · rename_i hpath hsecret
    exact (verifyConfigured_verified_iff hs hpath hrun).1
  · rename_i path secret hpath hsecret
    obtain ⟨first, after, hfirst, hverdict⟩ := Work.run_bind_eq_some_iff.mp hrun
    obtain rfl : (if first.valid then first else verifyWithSecret p secret) = verdict := Option.some.inj hverdict
    split
    · exact (verifyConfigured_verified_iff hs hpath (congrArg Prod.fst hfirst)).1
    · exact (verifyWithSecret_verified_iff hs hsecret).1

/-! ## Where policies are accepted unchecked -/

theorem uncheckable_iff {noCertificate noSecret : Prop} {block : SignatureBlock} (hs : p.signature = some block) :
    Uncheckable noCertificate noSecret p ↔
      (∃ h, Scheme.ofName? block.algorithm = .ok (.x509 h)) ∧ noCertificate ∨
      (∃ h, Scheme.ofName? block.algorithm = .ok (.hmac h)) ∧ noSecret ∨
      Scheme.ofName? block.algorithm = .ok .auto ∧ noCertificate ∧ noSecret := by
  rw [Scheme.ofName?_x509_iff, Scheme.ofName?_hmac_iff, Scheme.ofName?_auto_iff]
  constructor
  · intro h
    cases h with
    | unsigned hnone => simp [hs] at hnone
    | byCertificate b hb hname hc =>
      obtain rfl : block = b := Option.some.inj (hs.symm.trans hb)
      exact Or.inl ⟨hname, hc⟩
    | bySecret b hb hname hk =>
      obtain rfl : block = b := Option.some.inj (hs.symm.trans hb)
      exact Or.inr (Or.inl ⟨hname, hk⟩)
    | byEither b hb hname hc hk =>
      obtain rfl : block = b := Option.some.inj (hs.symm.trans hb)
      exact Or.inr (Or.inr ⟨hname, hc, hk⟩)
  · rintro (⟨hname, hc⟩ | ⟨hname, hk⟩ | ⟨hname, hc, hk⟩)
    · exact .byCertificate block hs hname hc
    · exact .bySecret block hs hname hk
    · exact .byEither block hs hname hc hk

section Schemes

variable {block : SignatureBlock} {h : Hash}

theorem acceptsUnchecked_x509_iff (hs : p.signature = some block)
    (hname : Scheme.ofName? block.algorithm = .ok (.x509 h)) :
    s.AcceptsUnchecked store p ↔ s.config.profile = .development ∧ s.config.certificatePath = none := by
  cases hpath : s.config.certificatePath with
  | none =>
    rw [acceptsUnchecked_of_done (by simp only [verifyAuto, hs, hname, hpath]; rfl), unconfigured_acceptsUnchecked_iff]
    simp
  | some path =>
    have hstrict : ¬ s.AcceptsUnchecked store p := by
      refine not_acceptsUnchecked_of_strict fun verdict hrun => ?_
      simp only [verifyAuto, hs, hname, hpath] at hrun
      exact (verifyConfigured_verified_iff hs hpath hrun).1
    simp [hstrict]

theorem acceptsUnchecked_hmac_iff (hs : p.signature = some block)
    (hname : Scheme.ofName? block.algorithm = .ok (.hmac h)) :
    s.AcceptsUnchecked store p ↔ s.config.profile = .development ∧ s.config.secret = none := by
  cases hsecret : s.config.secret with
  | none =>
    rw [acceptsUnchecked_of_done (by simp only [verifyAuto, hs, hname, hsecret]; rfl),
      unconfigured_acceptsUnchecked_iff]
    simp
  | some secret =>
    have hstrict : ¬ s.AcceptsUnchecked store p := by
      refine not_acceptsUnchecked_of_strict fun verdict hrun => ?_
      simp only [verifyAuto, hs, hname, hsecret, Work.run_done, Option.some.injEq] at hrun
      exact hrun ▸ (verifyWithSecret_verified_iff hs hsecret).1
    simp [hstrict]

theorem acceptsUnchecked_auto_iff (hs : p.signature = some block) (hname : Scheme.ofName? block.algorithm = .ok .auto) :
    s.AcceptsUnchecked store p ↔
      s.config.profile = .development ∧ s.config.certificatePath = none ∧ s.config.secret = none := by
  have hopen : s.verifyAuto p = s.verifyOpen p := by simp only [verifyAuto, hs, hname]
  by_cases hconfigured : s.config.certificatePath = none ∧ s.config.secret = none
  · rw [acceptsUnchecked_of_done (by simp only [hopen, verifyOpen, hconfigured.1, hconfigured.2]; rfl),
      unconfigured_acceptsUnchecked_iff]
    simp [hconfigured]
  · have hstrict : ¬ s.AcceptsUnchecked store p :=
      not_acceptsUnchecked_of_strict fun verdict hrun => verifyOpen_strict hs hconfigured (hopen ▸ hrun)
    simp [hstrict, hconfigured]

theorem not_acceptsUnchecked_of_error (hs : p.signature = some block) {fault : Fault}
    (hname : Scheme.ofName? block.algorithm = .error fault) : ¬ s.AcceptsUnchecked store p := by
  refine not_acceptsUnchecked_of_strict fun verdict hrun => ?_
  simp only [verifyAuto, hs, hname, Work.run_done, Option.some.injEq] at hrun
  exact hrun ▸ Verdict.strict_failed _ _ _

end Schemes

/-- A policy is accepted unchecked exactly where it cannot be checked, and in development only. -/
theorem acceptsUnchecked_iff : s.AcceptsUnchecked store p ↔ s.config.profile = .development ∧
    Uncheckable (s.config.certificatePath = none) (s.config.secret = none) p := by
  cases hs : p.signature with
  | none =>
    have hauto : s.verifyAuto p = .done s.unsignedVerdict := by simp only [verifyAuto, hs]
    have huncheckable : Uncheckable (s.config.certificatePath = none) (s.config.secret = none) p := .unsigned hs
    rw [acceptsUnchecked_of_done hauto, unsignedVerdict_acceptsUnchecked_iff]
    simp [huncheckable]
  | some block =>
    rw [uncheckable_iff hs]
    cases hname : Scheme.ofName? block.algorithm with
    | error fault => simp [not_acceptsUnchecked_of_error hs hname]
    | ok scheme =>
      cases scheme with
      | x509 h => simp [acceptsUnchecked_x509_iff hs hname]
      | hmac h => simp [acceptsUnchecked_hmac_iff hs hname]
      | auto => simp [acceptsUnchecked_auto_iff hs hname]

/-! ## As the environment says -/

theorem unset_certificatePath_iff {env : Environment} :
    (BindingConfig.ofEnvironment env).certificatePath = none ↔ env.Unset "POLICY_SIGNATURE_CERT_PATH" := by
  rw [← Environment.value?_eq_none_iff]
  exact Option.map_eq_none_iff

theorem unset_secret_iff {env : Environment} :
    (BindingConfig.ofEnvironment env).secret = none ↔ env.Unset "POLICY_SIGNATURE_HMAC_SECRET" := by
  rw [← Environment.value?_eq_none_iff]
  exact Option.map_eq_none_iff

/-- The names of signature algorithms. -/
def algorithms : List String := ["SHA384", "SHA512", "hmac", "sha384", "sha512", "auto"]

theorem mem_algorithms_of_uncheckable {noCertificate noSecret : Prop} {block : SignatureBlock}
    (hs : p.signature = some block) (h : Uncheckable noCertificate noSecret p) : block.algorithm ∈ algorithms := by
  rcases (uncheckable_iff hs).mp h with ⟨hname, -⟩ | ⟨hname, -⟩ | ⟨hname, -⟩
  · rcases Scheme.ofName?_x509_iff.mp hname with h | h <;> simp [algorithms, h]
  · rcases Scheme.ofName?_hmac_iff.mp hname with h | h | h <;> simp [algorithms, h]
  · simp [algorithms, Scheme.ofName?_auto_iff.mp hname]

/-- A node set up by its environment accepts a policy unchecked exactly where the profile is unset or spells
development, and the policy has no signature or the variables with what its algorithm asks for are unset. So no other
spelling of the profile and no other name of an algorithm is accepted unchecked. -/
theorem ofEnvironment_acceptsUnchecked_iff (env : Environment) (paths : TrustPaths) (store : Store) (p : Policy) :
    (AcceptsUnchecked ⟨.ofEnvironment env, paths⟩ store p ↔
      (env.Unset "POLICY_BINDING_PROFILE" ∨ ∃ v, env "POLICY_BINDING_PROFILE" = some v ∧ SpellsDevelopment v) ∧
        Uncheckable (env.Unset "POLICY_SIGNATURE_CERT_PATH") (env.Unset "POLICY_SIGNATURE_HMAC_SECRET") p) ∧
    (∀ v, env "POLICY_BINDING_PROFILE" = some v → Text.isBlankText v = false → ¬ SpellsDevelopment v →
      ¬ AcceptsUnchecked ⟨.ofEnvironment env, paths⟩ store p) ∧
    ∀ block, p.signature = some block → block.algorithm ∉ algorithms →
      ¬ AcceptsUnchecked ⟨.ofEnvironment env, paths⟩ store p := by
  have hiff : AcceptsUnchecked ⟨.ofEnvironment env, paths⟩ store p ↔
      (env.Unset "POLICY_BINDING_PROFILE" ∨ ∃ v, env "POLICY_BINDING_PROFILE" = some v ∧ SpellsDevelopment v) ∧
        Uncheckable (env.Unset "POLICY_SIGNATURE_CERT_PATH") (env.Unset "POLICY_SIGNATURE_HMAC_SECRET") p := by
    rw [acceptsUnchecked_iff, BindingConfig.profile_eq_development_iff, unset_certificatePath_iff, unset_secret_iff]
  refine ⟨hiff, fun v hv hblank hspells haccepts => ?_, fun block hs hname haccepts => ?_⟩
  · rcases (hiff.mp haccepts).1 with hunset | ⟨w, hw, hdevelopment⟩
    · have hvalue : env.value? "POLICY_BINDING_PROFILE" = some v := Environment.value?_eq_some_iff.mpr ⟨hv, hblank⟩
      rw [Environment.value?_eq_none_iff.mpr hunset] at hvalue
      cases hvalue
    · obtain rfl : v = w := Option.some.inj (hv.symm.trans hw)
      exact hspells hdevelopment
  · exact hname (mem_algorithms_of_uncheckable hs (hiff.mp haccepts).2)

/-- An environment with nothing but a profile. -/
def profileOnly (text : String) : Environment := .ofList [("POLICY_BINDING_PROFILE", text)]

/-- A block whose algorithm has no such name. -/
def oddPolicy : Policy := plainPolicy.withSignature ⟨"MD5", "AAAA", "node", "2025-01-01T00:00:00Z"⟩

/-- Without a signature, a policy is accepted where the profile is ` DEV `, and not where it is `devel`; with an
algorithm of another name it is not accepted even there. -/
theorem devel_accepts_nothing_unchecked :
    AcceptsUnchecked ⟨.ofEnvironment (profileOnly " DEV "), .under ⟨"certs"⟩⟩ emptyStore plainPolicy ∧
      ¬ AcceptsUnchecked ⟨.ofEnvironment (profileOnly "devel"), .under ⟨"certs"⟩⟩ emptyStore plainPolicy ∧
      ¬ AcceptsUnchecked ⟨.ofEnvironment (profileOnly " DEV "), .under ⟨"certs"⟩⟩ emptyStore oddPolicy := by
  have hspace : ∀ c ∈ [' '], Text.isBlank c = true := by simp [Text.isBlank]
  have hdev : SpellsDevelopment " DEV " :=
    Or.inr ⟨[' '], ['D', 'E', 'V'], [' '], by decide, hspace, hspace, by decide⟩
  have hdevel : ¬ SpellsDevelopment "devel" := by
    have hword : Text.lower (Text.trim "devel") = "devel" := by decide
    simp [← Profile.ofName?_eq_development_iff, Profile.ofName?, hword]
  refine ⟨?_, ?_, ?_⟩
  · exact (ofEnvironment_acceptsUnchecked_iff _ _ _ _).1.mpr ⟨Or.inr ⟨" DEV ", rfl, hdev⟩, .unsigned rfl⟩
  · exact (ofEnvironment_acceptsUnchecked_iff _ _ _ _).2.1 "devel" rfl (by decide) hdevel
  · exact (ofEnvironment_acceptsUnchecked_iff _ _ _ _).2.2 _ rfl (by decide)

end Service

end PolicySeal
