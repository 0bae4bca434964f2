import PolicySeal.Proofs.Binding.Ways
import PolicySeal.Proofs.Policy.Signed
import PolicySeal.Proofs.Rsa.Signature
import PolicySeal.Proofs.Trust.Chain
import PolicySeal.Proofs.Trust.Loads
/-
  PolicySeal.Proofs.Binding.Separation — a signature passes one check at most.

  Under a key the padded block names the hash, so no signature passes with both hashes. With
  a secret the two tags differ in length, and either is shorter than a signature under any key
  that the digests fit into. So no bytes pass two of the four checks of a policy
  (`accepts_unique`), and no collision of hashes has to be ruled out for that. A verified block
  that is given the name of another check is therefore refused under the same key and secret,
  in whatever way the policy is verified (`renamed_fails`).
-/

namespace PolicySeal

open Trust

namespace Check

variable {k : Rsa.PublicKey} {secret : Secret} {p : Policy} {v : Bytes} {a b : Check}

theorem accepts_key_iff {h : Hash} :
    accepts k secret p v (.key h) = true ↔ Rsa.Verifies k (.ofHash h) p.signedBytes v := Rsa.verify_iff

theorem accepts_secret_iff {h : Hash} : accepts k secret p v (.secret h) = true ↔ p.tag secret h = v := beq_iff_eq

/-- The checks look at nothing of the policy but its signed bytes. -/
theorem accepts_congr {q : Policy} (hbytes : p.signedBytes = q.signedBytes) (a : Check) :
    a.accepts k secret p v = a.accepts k secret q v := by
  cases a with
  | key h => rw [accepts, accepts, Policy.matchesKey, Policy.matchesKey, hbytes]
  | secret h => rw [accepts, accepts, Policy.matchesSecret_congr hbytes]

/-- How long the bytes are that pass: tags have the length of their hash, signatures under a key are longer. -/
theorem length_of_accepts_secret {h : Hash} (ha : accepts k secret p v (.secret h) = true) : v.length = h.bytes := by
  rw [← accepts_secret_iff.mp ha, Policy.length_tag]

theorem length_of_accepts_key {h : Hash} (ha : accepts k secret p v (.key h) = true) : 64 < v.length := by
  have hlong := (accepts_key_iff.mp ha).long
  cases h with
  | sha384 => exact Nat.lt_of_lt_of_le (by decide) hlong
  | sha512 => exact Nat.lt_of_lt_of_le (by decide) hlong

theorem not_accepts_both {h h' : Hash} (ha : accepts k secret p v (.key h) = true) :
    ¬ accepts k secret p v (.secret h') = true := by
  intro hb
  have hlong := length_of_accepts_key ha
  rw [length_of_accepts_secret hb] at hlong
  cases h' <;> exact absurd hlong (by decide)

theorem accepts_unique (ha : a.accepts k secret p v = true) (hb : b.accepts k secret p v = true) : a = b := by
  cases a with
  | key h =>
    cases b with
    | key h' =>
      have hkind := ((accepts_key_iff.mp ha).unique (accepts_key_iff.mp hb)).1
      rw [Digest.Kind.ofHash_injective hkind]
    | secret h' => exact absurd hb (not_accepts_both ha)
  | secret h =>
    cases b with
    | key h' => exact absurd ha (not_accepts_both hb)
    | secret h' =>
      have hlength := (length_of_accepts_secret ha).symm.trans (length_of_accepts_secret hb)
      cases h <;> cases h' <;> first | rfl | cases hlength

end Check

/-- The policy with another algorithm named in its block. -/
def Policy.renamed (p : Policy) (block : SignatureBlock) (name : String) : Policy :=
  p.withSignature { block with algorithm := name }

namespace Service

variable {s : Service} {p : Policy} {k : Rsa.PublicKey} {secret : Secret} {block : SignatureBlock} {name : String}
  {verdict verdict' : Verdict} {check : Check}

/-- A verified block fails under any name that does not stand for the check that it was verified by. -/
theorem renamed_fails (hfor : StandsFor s.config block.algorithm check) (hother : ¬ StandsFor s.config name check)
    (hsettled : Settled s.config k secret p block verdict) (hstatus : verdict.status = .verified)
    (hmechanism : verdict.mechanism = check.mechanism)
    (hrenamed : Settled s.config k secret (p.renamed block name) { block with algorithm := name } verdict') :
    ∃ m f e, verdict' = .failed m f e := by
  cases hsettled with
  | failed m f e h =>
    subst h
    cases hstatus
  | verified passed v hpassed hv haccepts _ hm =>
    obtain rfl : passed = check := hpassed.unique hfor (hm.symm.trans hmechanism)
    cases hrenamed with
    | failed m f e h => exact ⟨m, f, e, h⟩
    | verified passed' v' hpassed' hv' haccepts' _ _ =>
      obtain rfl : v' = v := Except.ok.inj (hv'.symm.trans hv)
      have hbytes : (p.renamed block name).signedBytes = p.signedBytes := p.signedBytes_withSignature _
      rw [Check.accepts_congr hbytes] at haccepts'
      obtain rfl : passed' = passed := Check.accepts_unique haccepts' haccepts
      exact absurd hpassed' hother

/-- Of the four checks of a policy under a key and with a secret, no bytes pass two. Under the key the check is that of
RFC 8017. So a block that was verified fails under the same key and secret when its algorithm is replaced by any name
that stands for no check it was verified by, the value and the policy being as they are. -/
theorem schemes_separate (p : Policy) (k : Rsa.PublicKey) (secret : Secret) :
    (∀ v (a b : Check), a.accepts k secret p v = true → b.accepts k secret p v = true → a = b) ∧
    (∀ v h, p.matchesKey k h v = true ↔ Rsa.Verifies k (.ofHash h) p.signedBytes v) ∧
    ∀ (s : Service) (block : SignatureBlock) (store store' : Store) (way way' : Way) (verdict : Verdict)
      (check : Check) (name : String),
      p.signature = some block → s.Uses store k secret way → ((s.verifyBy p way).run store).1 = some verdict →
      verdict.status = .verified → verdict.mechanism = check.mechanism → StandsFor s.config block.algorithm check →
      ¬ StandsFor s.config name check → s.Uses store' k secret way' →
      (store'.Answers → ∃ verdict', ((s.verifyBy (p.renamed block name) way').run store').1 = some verdict') ∧
      ∀ verdict', ((s.verifyBy (p.renamed block name) way').run store').1 = some verdict' →
        ∃ m f e, verdict' = .failed m f e := by
  refine ⟨fun v a b => Check.accepts_unique, fun v h => Rsa.verify_iff, ?_⟩
  intro s block store store' way way' verdict check name hs huses hrun hstatus hmechanism hfor hother huses'
  refine ⟨fun hanswers => verifyBy_ends way' store' hanswers, fun verdict' hrun' => ?_⟩
  exact renamed_fails hfor hother (verifyBy_settled hs huses hrun) hstatus hmechanism
    (verifyBy_settled rfl huses' hrun')

/-- A store that has the certificate of the node. -/
def servingStore : Store := emptyStore.keeping ⟨⟨"signing.crt"⟩, rootCertificate, ⟨0⟩⟩

theorem sealedNode_uses : sealedNode.Uses servingStore rootKey ⟨[7]⟩ .auto := by
  refine ⟨⟨⟨"signing.crt"⟩, rfl, fun c hc => ?_⟩, rfl⟩
  have hload : ((load ⟨"signing.crt"⟩).run servingStore).1 = some (.ok rootCertificate) := rfl
  obtain rfl : rootCertificate = c := Except.ok.inj (Option.some.inj (hload.symm.trans hc))
  rfl

/-- The tag of the policy under the secret of the node, named as one. -/
def keyedBlock : SignatureBlock :=
  ⟨"sha384", Base64.encode (plainPolicy.tag ⟨[7]⟩ .sha384), "node", "2025-01-01T00:00:00Z"⟩

/-- A tag that is verified is refused as a signature under the certificate. -/
theorem keyedPolicy_refused_as_signature :
    ((sealedNode.verifyBy (plainPolicy.withSignature keyedBlock) .auto).run servingStore).1 = some (.verified .hmac) ∧
      ∃ m f e, ((sealedNode.verifyBy ((plainPolicy.withSignature keyedBlock).renamed keyedBlock "SHA384") .auto).run
        servingStore).1 = some (.failed m f e) := by
  have hverified : ((sealedNode.verifyBy (plainPolicy.withSignature keyedBlock) .auto).run servingStore).1
      = some (.verified .hmac) := by
    have htag : verifyWithSecret (plainPolicy.withSignature keyedBlock) ⟨[7]⟩ = .verified .hmac :=
      Policy.verifyWithSecret_tag rfl rfl (show keyedBlock.algorithm = (Scheme.hmac .sha384).name from rfl)
        (by rw [Policy.tag, Policy.signedBytes_withSignature]; rfl)
    exact congrArg some htag
  have hother : ¬ StandsFor sealedNode.config "SHA384" (.secret .sha384) := by
    intro h
    cases h with
    | secret hh => simp [secretHash_iff, Scheme.ofName?] at hh
  obtain ⟨-, -, hrenamed⟩ := schemes_separate (plainPolicy.withSignature keyedBlock) rootKey ⟨[7]⟩
  obtain ⟨hends, hfails⟩ := hrenamed sealedNode keyedBlock servingStore servingStore .auto .auto _ (.secret .sha384)
    "SHA384" rfl sealedNode_uses hverified rfl rfl (.secret .sha384) hother sealedNode_uses
  obtain ⟨verdict', hrun⟩ := hends fun path hbroken => by cases hbroken
  obtain ⟨m, f, e, rfl⟩ := hfails verdict' hrun
  exact ⟨hverified, m, f, e, hrun⟩

end Service

end PolicySeal
