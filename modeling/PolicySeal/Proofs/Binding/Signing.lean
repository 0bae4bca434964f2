import PolicySeal.Binding.Service
import PolicySeal.Proofs.Base64
/-
  PolicySeal.Proofs.Binding.Signing — what is signed with a secret verifies with it.

  A keyed hash has the length of its hash, so its encoding is read back as the tag
  (`decode_tag`). A verdict under a secret looks at nothing of a policy but its signed bytes
  and its signature block (`verifyWithSecret_congr`); where the block holds the tag of the
  signed bytes under some secret, the verdict is the comparison of two tags
  (`verifyWithSecret_of_tag`), and under that secret the policy is verified
  (`verifyWithSecret_tag`).
-/

namespace PolicySeal

/-! ## The length of a tag -/

theorem Bytes.length_ofNat (length n : Nat) : (Bytes.ofNat length n).length = length := by
  induction length with
  | zero => rfl
  | succ length ih => rw [Bytes.ofNat, List.length_cons, ih]

namespace Digest

theorem Family.length_digest {W : Type} (F : Family W) (start : Working W) {length : Nat} (message : Bytes)
    (h : length ≤ 8 * F.wordBytes) : (F.digest start length message).length = length := by
  simp only [Family.digest, Working.toList, List.length_take, List.length_flatMap, Bytes.length_ofNat, List.map_cons,
    List.map_nil, List.sum_cons, List.sum_nil]
  omega

end Digest

/-- How many bytes a hash has. -/
def Hash.bytes : Hash → Nat
  | .sha384 => 48
  | .sha512 => 64

theorem Hash.length_digest (h : Hash) (message : Bytes) : (h.digest message).length = h.bytes := by
  cases h <;> exact Digest.Family.length_digest _ _ _ (by decide)

namespace Policy

variable {p q : Policy} {secret : Secret} {h : Hash}

theorem length_tag (p : Policy) (secret : Secret) (h : Hash) : (p.tag secret h).length = h.bytes := h.length_digest _

theorem tag_ne_nil (p : Policy) (secret : Secret) (h : Hash) : p.tag secret h ≠ [] := by
  refine List.ne_nil_of_length_pos ?_
  rw [length_tag]
  cases h <;> decide

theorem decode_tag (p : Policy) (secret : Secret) (h : Hash) :
    decodeSignatureValue (Base64.encode (p.tag secret h)) = .ok (p.tag secret h) :=
  decodeSignatureValue_encode (tag_ne_nil p secret h)

theorem tag_congr (hbytes : p.signedBytes = q.signedBytes) : p.tag = q.tag := by
  funext secret h
  rw [tag, tag, hbytes]

/-! ## Signing with a secret -/

/-- The block with the tag of the policy. -/
def tagBlock (p : Policy) (secret : Secret) (h : Hash) (signerId : String) (at_ : Time.Instant) : SignatureBlock :=
  { algorithm := (Scheme.hmac h).name, value := Base64.encode (p.tag secret h), signerId, timestamp := at_.stamp }

theorem hmacSignature_of_secret (hsecret : secret.isEmpty = false) :
    p.hmacSignature secret h = .ok (Base64.encode (p.tag secret h)) := by simp [hmacSignature, hsecret]

theorem signedWithSecret_of_secret {signerId : String} {at_ : Time.Instant} (hsecret : secret.isEmpty = false) :
    p.signedWithSecret secret h signerId at_ = .ok (p.withSignature (p.tagBlock secret h signerId at_)) := by
  rw [signedWithSecret, hmacSignature_of_secret hsecret]
  rfl

/-! ## Verdicts under a secret -/

theorem matchesSecret_congr (hbytes : p.signedBytes = q.signedBytes) : p.matchesSecret = q.matchesSecret := by
  funext secret h signature
  rw [matchesSecret, matchesSecret, tag_congr hbytes]

/-- Policies with equal signed bytes and equal blocks get the same verdict. -/
theorem verifyWithSecret_congr (hbytes : p.signedBytes = q.signedBytes) (hsignature : p.signature = q.signature) :
    Service.verifyWithSecret p secret = Service.verifyWithSecret q secret := by
  rw [Service.verifyWithSecret, Service.verifyWithSecret, hsignature, matchesSecret_congr hbytes]

theorem ofName?_x509Name (h : Hash) : Scheme.ofName? h.x509Name = .ok (.x509 h) := by cases h <;> rfl

theorem ofName?_hmacName (h : Hash) : Scheme.ofName? (Scheme.hmac h).name = .ok (.hmac h) := by cases h <;> rfl

/-- What is accepted under a secret has the tag of its signed bytes in its block. -/
theorem tag_of_verifyWithSecret (hvalid : (Service.verifyWithSecret p secret).valid = true) :
    ∃ block h v, p.signature = some block ∧ Service.secretHash block = .ok h ∧
      decodeSignatureValue block.value = .ok v ∧ v = p.tag secret h := by
  rw [Service.verifyWithSecret] at hvalid
  split at hvalid
  · cases hvalid
  · rename_i block hsignature
    split at hvalid
    · -- A block without a hash gives a failed verdict, whatever is wrong with it.
      rename_i verdict hhash
      simp only [Service.secretHash] at hhash
      split at hhash <;> cases hhash <;> cases hvalid
    · rename_i h hhash
      split at hvalid
      · cases hvalid
      · split at hvalid
        · cases hvalid
        · rename_i v hdecode
          split at hvalid
          · rename_i hmatches
            exact ⟨block, h, v, hsignature, hhash, hdecode, (eq_of_beq hmatches).symm⟩
          · cases hvalid

/-- Policies with one block that are accepted under one secret have one tag. -/
theorem tag_eq_of_verifyWithSecret (hsignature : q.signature = p.signature)
    (hp : (Service.verifyWithSecret p secret).valid = true) (hq : (Service.verifyWithSecret q secret).valid = true) :
    ∃ h, p.tag secret h = q.tag secret h := by
  obtain ⟨block, h, v, hblock, hhash, hdecode, rfl⟩ := tag_of_verifyWithSecret hp
  obtain ⟨block', h', v', hblock', hhash', hdecode', rfl⟩ := tag_of_verifyWithSecret hq
  obtain rfl : block' = block := Option.some.inj (hblock'.symm.trans (hsignature.trans hblock))
  obtain rfl : h' = h := Except.ok.inj (hhash'.symm.trans hhash)
  exact ⟨h', Except.ok.inj (hdecode.symm.trans hdecode')⟩

/-- Under any secret, the verdict on a tag tells whether that secret makes the same one. -/
theorem verifyWithSecret_of_tag {block : SignatureBlock} (hsignature : p.signature = some block)
    (halgorithm : block.algorithm = (Scheme.hmac h).name) (hvalue : block.value = Base64.encode (p.tag secret h))
    (other : Secret) :
    Service.verifyWithSecret p other
      = if other.isEmpty then .failed .hmac .configuration "HMAC secret is empty"
        else if p.tag other h = p.tag secret h then .verified .hmac
        else .failed .hmac .signatureMismatch "HMAC signature mismatch" := by
  have hhash : Service.secretHash block = .ok h := by rw [Service.secretHash, halgorithm, ofName?_hmacName]
  have hdecode : decodeSignatureValue block.value = .ok (p.tag secret h) := by rw [hvalue, decode_tag]
  by_cases hother : other.isEmpty = true
  · simp [Service.verifyWithSecret, hsignature, hhash, hother]
  · by_cases htag : p.tag other h = p.tag secret h <;>
      simp [Service.verifyWithSecret, hsignature, hhash, hother, hdecode, matchesSecret, htag]

/-- A block that holds the tag of the signed bytes is verified. -/
theorem verifyWithSecret_tag {block : SignatureBlock} (hsecret : secret.isEmpty = false)
    (hsignature : p.signature = some block) (halgorithm : block.algorithm = (Scheme.hmac h).name)
    (hvalue : block.value = Base64.encode (p.tag secret h)) :
    Service.verifyWithSecret p secret = .verified .hmac := by
  rw [verifyWithSecret_of_tag hsignature halgorithm hvalue, hsecret, if_neg Bool.false_ne_true, if_pos rfl]

end Policy

end PolicySeal
