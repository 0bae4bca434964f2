import PolicySeal.Proofs.Binding.Signing
import PolicySeal.Proofs.Policy.Agreement
import PolicySeal.Proofs.Policy.Signed
/-
  PolicySeal.Proofs.Binding.Keyed — signing with a secret, over whatever block there is.

  The tag of a policy is made from its signed bytes, and no block plays a part in these. So a
  policy that is signed again, or that loses its block, or that is given another one, gets the
  value it had (`tag_congr`). The verdict on a block with that value is the comparison of two
  tags and nothing else (`verifyWithSecret_of_tag`), once the secret it is checked with has
  any bytes. Put together: signing with a secret and verifying with it go together, for every
  policy, however it was made and whatever it had for a block (`signedWithSecret_verified`).
-/

namespace PolicySeal.Policy

open Json

variable {p q : Policy} {secret : Secret} {h : Hash} {signerId : String} {at_ : Time.Instant}

/-! ## Policies that differ in their blocks -/

/-- A policy that differs in its block at most is given the same value. -/
theorem tagBlock_congr (hq : q.withoutSignature = p.withoutSignature) (signerId' : String) (at' : Time.Instant) :
    q.tagBlock secret h signerId' at'
      = { p.tagBlock secret h signerId at_ with signerId := signerId', timestamp := at'.stamp } := by
  have htag : q.tag = p.tag := tag_congr (signedBytes_eq_of_unsigned_eq hq)
  rw [tagBlock, tagBlock, htag]

theorem erase_members_congr (hq : q.withoutSignature = p.withoutSignature) :
    Members.erase q.members signatureField = Members.erase p.members signatureField := by
  rw [erase_members, hq, ← erase_members]

/-! ## Signed, then verified -/

theorem verifyWithSecret_tagBlock (p : Policy) (secret : Secret) (h : Hash) (signerId : String) (at_ : Time.Instant)
    (other : Secret) :
    Service.verifyWithSecret (p.withSignature (p.tagBlock secret h signerId at_)) other
      = if other.isEmpty then .failed .hmac .configuration "HMAC secret is empty"
        else if p.tag other h = p.tag secret h then .verified .hmac
        else .failed .hmac .signatureMismatch "HMAC signature mismatch" := by
  have htag : (p.withSignature (p.tagBlock secret h signerId at_)).tag = p.tag :=
    tag_congr (p.signedBytes_withSignature _)
  have hvalue : (p.tagBlock secret h signerId at_).value
      = Base64.encode ((p.withSignature (p.tagBlock secret h signerId at_)).tag secret h) := by
    rw [htag]
    rfl
  rw [verifyWithSecret_of_tag rfl rfl hvalue, htag]

/-- Signing with a secret that has any bytes succeeds, whatever the policy has for a block. What is signed and every
field but the block stay, in the policy and in the document it is written as, and the policy is verified with the
secret. A policy that is the same but for its block (this one signed again, without a block, or with any other) is given
the same value, in anyone's name and at any time. With another secret the policy is accepted exactly when that secret
has any bytes and makes the same tag. -/
theorem signedWithSecret_verified (p : Policy) (secret : Secret) (h : Hash) (signerId : String) (at_ : Time.Instant)
    (hsecret : secret.isEmpty = false) :
    ∃ signed block, p.signedWithSecret secret h signerId at_ = .ok signed ∧
      signed.signature = some block ∧ block.algorithm = h.hmacName ∧ block.signerId = signerId ∧
      block.timestamp = at_.stamp ∧
      signed.signedBytes = p.signedBytes ∧ signed.withoutSignature = p.withoutSignature ∧
      Members.erase signed.members signatureField = Members.erase p.members signatureField ∧
      Service.verifyWithSecret signed secret = .verified .hmac ∧
      (∀ q : Policy, q.withoutSignature = p.withoutSignature →
        q.hmacSignature secret h = .ok block.value ∧
          ∀ signerId' at', q.signedWithSecret secret h signerId' at'
            = .ok (q.withSignature { block with signerId := signerId', timestamp := at'.stamp })) ∧
      ∀ other, (Service.verifyWithSecret signed other).valid = true ↔
        other.isEmpty = false ∧ p.tag other h = p.tag secret h := by
  refine ⟨_, p.tagBlock secret h signerId at_, signedWithSecret_of_secret hsecret, rfl, rfl, rfl, rfl,
    p.signedBytes_withSignature _, rfl, erase_members_congr rfl, ?_, ?_, ?_⟩
  · rw [verifyWithSecret_tagBlock, hsecret, if_neg Bool.false_ne_true, if_pos rfl]
  · intro q hq
    have htag : q.tag = p.tag := tag_congr (signedBytes_eq_of_unsigned_eq hq)
    refine ⟨?_, fun signerId' at' => ?_⟩
    · rw [hmacSignature_of_secret hsecret, htag]
      rfl
    · rw [signedWithSecret_of_secret hsecret, tagBlock_congr hq]
  · intro other
    rw [verifyWithSecret_tagBlock]
    by_cases hother : other.isEmpty = true
    · simp [hother, Verdict.failed]
    · by_cases htag : p.tag other h = p.tag secret h <;> simp [hother, htag, Verdict.failed, Verdict.verified]

/-- A policy that was received with null for a block and has a tag since is signed again, with another hash. An empty
secret does not verify it, and one with a zero more does: a keyed hash fills its key up with zeros. -/
theorem taggedUnordered_signed_again :
    ∃ signed, taggedUnordered.signedWithSecret ⟨[7]⟩ .sha512 "hub" ⟨0⟩ = .ok signed ∧
      Service.verifyWithSecret signed ⟨[7]⟩ = .verified .hmac ∧
      (Service.verifyWithSecret signed ⟨[]⟩).valid = false ∧ (Service.verifyWithSecret signed ⟨[7, 0]⟩).valid = true := by
  obtain ⟨signed, block, hsigned, -, -, -, -, -, -, -, hverified, -, hother⟩ :=
    signedWithSecret_verified taggedUnordered ⟨[7]⟩ .sha512 "hub" ⟨0⟩ rfl
  refine ⟨signed, hsigned, hverified, ?_, (hother _).mpr ⟨rfl, rfl⟩⟩
  exact Bool.eq_false_iff.mpr fun hvalid => absurd ((hother _).mp hvalid).1 (by decide)

end PolicySeal.Policy
