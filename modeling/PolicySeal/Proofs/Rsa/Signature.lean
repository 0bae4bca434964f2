import PolicySeal.Proofs.Bytes
import PolicySeal.Rsa.Signature
/-
  PolicySeal.Proofs.Rsa.Signature — what an RSA signature is a signature of.

  Squaring and multiplying gives the power (`power_eq`), so that a signature verifies exactly
  where RFC 8017 has it verify (`verify_iff`): it is as long as the modulus, and its power is
  the padded digest with the name of its hash. The padding ends where the first zero byte is
  and the names of the hashes are of one length, so a block tells its hash and its digest
  (`paddedBlock_injective`). A signature that was made verifies under the other half of the
  key (`verify_sign`).
-/

namespace PolicySeal

namespace Rsa

/-! ## Powers -/

theorem pow_mod (a n m : Nat) : Nat.pow a n % m = Nat.pow (a % m) n % m := Nat.pow_mod a n m

/-- A power by the square of its base and half of its exponent. -/
theorem pow_halved (base exponent : Nat) : Nat.pow base exponent =
    (if exponent % 2 = 1 then base else 1) * Nat.pow (base * base) (exponent / 2) := by
  have hsquare : Nat.pow (base * base) (exponent / 2) = Nat.pow base (2 * (exponent / 2)) := by
    have htwo : base * base = Nat.pow base 2 := (Nat.pow_two base).symm
    rw [htwo]
    exact (Nat.pow_mul base 2 (exponent / 2)).symm
  rw [hsquare]
  split
  · rename_i hodd
    have hexponent : exponent = 2 * (exponent / 2) + 1 := by omega
    conv => lhs; rw [hexponent]
    exact Nat.pow_succ'
  · rename_i heven
    have hexponent : exponent = 2 * (exponent / 2) := by omega
    conv => lhs; rw [hexponent]
    exact (Nat.one_mul _).symm

theorem powerWithin_eq {m fuel result exponent : Nat} (base : Nat) (hresult : result % m = result)
    (hfuel : exponent < Nat.pow 2 fuel) :
    powerWithin m fuel result base exponent = result * Nat.pow base exponent % m := by
  induction fuel generalizing result base exponent with
  | zero =>
    obtain rfl : exponent = 0 := Nat.lt_one_iff.mp hfuel
    rw [powerWithin, Nat.pow, Nat.mul_one, hresult]
  | succ fuel ih =>
    have hhalf : exponent / 2 < Nat.pow 2 fuel := by
      have hdouble : Nat.pow 2 (fuel + 1) = Nat.pow 2 fuel * 2 := rfl
      omega
    have hnext : (if exponent % 2 = 1 then result * base % m else result) % m =
        (if exponent % 2 = 1 then result * base % m else result) := by
      split
      · exact Nat.mod_mod _ _
      · exact hresult
    rw [powerWithin, ih _ hnext hhalf, pow_halved base exponent, Nat.mul_mod, ← pow_mod, ← Nat.mul_mod]
    split
    · rw [Nat.mod_mul_mod, Nat.mul_assoc]
    · rw [Nat.one_mul]

/-- The power that is computed is the power. -/
theorem power_eq (m base exponent : Nat) : power m base exponent = Nat.pow base exponent % m := by
  have hfuel : exponent < Nat.pow 2 (exponent.log2 + 1) := Nat.lt_log2_self
  rw [power, powerWithin_eq _ (Nat.mod_mod 1 m) hfuel, Nat.mul_mod, Nat.mod_mod, ← pow_mod, ← Nat.mul_mod, Nat.one_mul]

end Rsa

/-! ## Digests -/

namespace Digest

/-- How many bytes a digest has. -/
def Kind.bytes : Kind → Nat
  | .sha256 => 32
  | .sha384 => 48
  | .sha512 => 64

theorem Kind.length_digest (h : Kind) (message : Bytes) : (h.digest message).length = h.bytes := by
  cases h <;> exact Family.length_digest _ _ _ (by decide)

theorem Kind.digest_ofHash (h : Hash) : (ofHash h).digest = h.digest := by cases h <;> rfl

theorem Kind.ofHash_injective {h k : Hash} (heq : ofHash h = ofHash k) : h = k := by
  cases h <;> cases k <;> first | rfl | cases heq

end Digest

/-! ## Blocks -/

namespace Rsa

/-- What stands before a digest to name its hash (RFC 8017, section 9.2, note 1). -/
def infoHead : Digest.Kind → Bytes
  | .sha256 => [0x30, 0x31, 0x30, 0x0D, 0x06, 0x09, 0x60, 0x86, 0x48, 0x01, 0x65, 0x03, 0x04, 0x02, 0x01, 0x05, 0x00, 0x04,
    0x20]
  | .sha384 => [0x30, 0x41, 0x30, 0x0D, 0x06, 0x09, 0x60, 0x86, 0x48, 0x01, 0x65, 0x03, 0x04, 0x02, 0x02, 0x05, 0x00, 0x04,
    0x30]
  | .sha512 => [0x30, 0x51, 0x30, 0x0D, 0x06, 0x09, 0x60, 0x86, 0x48, 0x01, 0x65, 0x03, 0x04, 0x02, 0x03, 0x05, 0x00, 0x04,
    0x40]

theorem length_infoHead (h : Digest.Kind) : (infoHead h).length = 19 := by cases h <;> rfl

theorem infoHead_injective {h k : Digest.Kind} (heq : infoHead h = infoHead k) : h = k := by
  cases h <;> cases k <;> first | rfl | cases heq

theorem digestInfo_eq (h : Digest.Kind) (message : Bytes) : digestInfo h message = infoHead h ++ h.digest message := by
  have hlength := h.length_digest message
  have hshort : h.bytes < 111 := by cases h <;> decide
  have halgorithm : (X509.AlgorithmId.plain h.oid).toElement.encode = ((infoHead h).drop 2).take 15 := by
    cases h <;> rfl
  have hdigest : (Der.octets (h.digest message)).encode =
      Der.Tag.octetString :: UInt8.ofNat h.bytes :: h.digest message := by
    have hfits : h.bytes < 128 := by omega
    simp [Der.Element.encode, Der.octets, Der.encodeLength, hlength, hfits]
  have hcontent : (((infoHead h).drop 2).take 15 ++
      (Der.Tag.octetString :: UInt8.ofNat h.bytes :: h.digest message)).length = 17 + h.bytes := by
    simp [length_infoHead, hlength]
    omega
  have hfits : 17 + h.bytes < 128 := by omega
  have hparts : infoHead h = Der.Tag.sequence :: UInt8.ofNat (17 + h.bytes) ::
      (((infoHead h).drop 2).take 15 ++ [Der.Tag.octetString, UInt8.ofNat h.bytes]) := by
    cases h <;> rfl
  rw [digestInfo, Der.Element.encode]
  simp only [Der.sequence, Der.wrap, List.map_cons, List.map_nil, List.flatten_cons, List.flatten_nil, List.append_nil,
    halgorithm, hdigest, hcontent, Der.encodeLength, if_pos hfits]
  conv => rhs; rw [hparts]
  simp

/-- The digest with the name of its hash, padded to `size` bytes. -/
def paddedBlock (size : Nat) (h : Digest.Kind) (message : Bytes) : Bytes :=
  0x00 :: 0x01 :: (List.replicate (size - (digestInfo h message).length - 3) 0xFF ++ 0x00 :: digestInfo h message)

theorem block?_eq_some_iff {size : Nat} {h : Digest.Kind} {message block : Bytes} :
    block? size h message = some block ↔
      (digestInfo h message).length + 11 ≤ size ∧ block = paddedBlock size h message := by
  have hoverhead : minOverhead = 11 := rfl
  rw [block?]
  by_cases hshort : size < (digestInfo h message).length + minOverhead
  · rw [if_pos hshort]
    simp only [reduceCtorEq, false_iff, not_and]
    omega
  · have hfits : (digestInfo h message).length + 11 ≤ size := by omega
    rw [if_neg hshort]
    simp only [paddedBlock, Option.some.injEq, List.cons_append, List.nil_append, List.append_assoc, hfits, true_and]
    exact eq_comm

theorem length_paddedBlock {size : Nat} {h : Digest.Kind} {message : Bytes}
    (hsize : (digestInfo h message).length + 11 ≤ size) : (paddedBlock size h message).length = size := by
  simp only [paddedBlock, List.length_cons, List.length_append, List.length_replicate]
  omega

/-- What is repeated ends at the first thing that is another. -/
theorem replicate_append_cons_inj {a b : UInt8} (hne : a ≠ b) {m n : Nat} {x y : Bytes}
    (h : List.replicate m a ++ b :: x = List.replicate n a ++ b :: y) : x = y := by
  induction m generalizing n with
  | zero =>
    cases n with
    | zero => exact (List.cons.inj h).2
    | succ n => exact absurd (List.cons.inj h).1.symm hne
  | succ m ih =>
    cases n with
    | zero => exact absurd (List.cons.inj h).1 hne
    | succ n => exact ih (List.cons.inj h).2

/-- A block tells its hash and its digest. -/
theorem paddedBlock_injective {size size' : Nat} {h k : Digest.Kind} {message message' : Bytes}
    (heq : paddedBlock size h message = paddedBlock size' k message') :
    h = k ∧ h.digest message = k.digest message' := by
  have hinfo : digestInfo h message = digestInfo k message' :=
    replicate_append_cons_inj (by decide) (List.cons.inj (List.cons.inj heq).2).2
  rw [digestInfo_eq, digestInfo_eq] at hinfo
  obtain ⟨hhead, hdigest⟩ := List.append_inj hinfo (by rw [length_infoHead, length_infoHead])
  exact ⟨infoHead_injective hhead, hdigest⟩

/-! ## Verifying -/

/-- The check of RFC 8017, section 8.2.2: the signature is as long as the modulus, the modulus is long enough for the
digest with the least padding, and the power of the signature is the padded digest. -/
structure Verifies (key : PublicKey) (h : Digest.Kind) (message signature : Bytes) : Prop where
  length : signature.length = key.size
  fits : (infoHead h ++ h.digest message).length + 11 ≤ key.size
  inRange : Bytes.toNat signature < key.modulus
  power : Bytes.ofNat key.size (Nat.pow (Bytes.toNat signature) key.exponent % key.modulus) =
    0x00 :: 0x01 :: (List.replicate (key.size - (infoHead h ++ h.digest message).length - 3) 0xFF ++
      0x00 :: (infoHead h ++ h.digest message))

variable {key : PublicKey} {h k : Digest.Kind} {message message' signature : Bytes}

theorem verify_iff : verify key h message signature = true ↔ Verifies key h message signature := by
  have hblock : verify key h message signature = true ↔
      (digestInfo h message).length + 11 ≤ key.size ∧ signature.length = key.size ∧
        Bytes.toNat signature < key.modulus ∧
        Bytes.ofNat key.size (Rsa.power key.modulus (Bytes.toNat signature) key.exponent) =
          paddedBlock key.size h message := by
    rw [verify]
    cases hb : block? key.size h message with
    | none =>
      have hshort : ¬ (digestInfo h message).length + 11 ≤ key.size := fun hfits => by
        simp [block?_eq_some_iff.mpr ⟨hfits, rfl⟩] at hb
      simp [hshort]
    | some block =>
      obtain ⟨hfits, rfl⟩ := block?_eq_some_iff.mp hb
      simp [hfits, and_assoc]
  rw [hblock, power_eq, paddedBlock, digestInfo_eq]
  exact ⟨fun ⟨hfits, hlength, hrange, hpower⟩ => ⟨hlength, hfits, hrange, hpower⟩,
    fun ⟨hlength, hfits, hrange, hpower⟩ => ⟨hfits, hlength, hrange, hpower⟩⟩

/-- A signature verifies under a key for one hash and one digest only. -/
theorem Verifies.unique (hv : Verifies key h message signature) (hw : Verifies key k message' signature) :
    h = k ∧ h.digest message = k.digest message' := by
  have heq := hv.power.symm.trans hw.power
  rw [← digestInfo_eq, ← digestInfo_eq] at heq
  exact paddedBlock_injective heq

/-- The padding makes a signature longer than the digest by thirty bytes at least. -/
theorem Verifies.long (hv : Verifies key h message signature) : h.bytes + 30 ≤ signature.length := by
  have hfits := hv.fits
  rw [List.length_append, length_infoHead, h.length_digest] at hfits
  rw [hv.length]
  omega

/-- A signature that is made verifies under the other half of the key. -/
theorem verify_sign {key : PrivateKey} (hsign : sign? key h message = some signature) :
    verify key.publicKey h message signature = true := by
  obtain ⟨block, hblock, hsign⟩ := Option.bind_eq_some_iff.mp hsign
  obtain ⟨hfits, rfl⟩ := block?_eq_some_iff.mp hblock
  have hpos : 0 < key.modulus := by
    refine Nat.pos_of_ne_zero fun hzero => ?_
    have hwidth : key.publicKey.size = 0 := congrArg Bytes.width hzero
    omega
  simp only [Option.ite_none_right_eq_some, Option.some.injEq] at hsign
  obtain ⟨hundone, rfl⟩ := hsign
  generalize hs : Rsa.power key.modulus (Bytes.toNat (paddedBlock key.publicKey.size h message)) key.secret = s at hundone
  have hrange : s < key.modulus := by
    rw [← hs, power_eq]
    exact Nat.mod_lt _ hpos
  have hnumber : Bytes.toNat (Bytes.ofNat key.publicKey.size s) = s :=
    Bytes.toNat_ofNat_of_lt (Nat.lt_trans hrange (Bytes.lt_limit_width key.modulus))
  have hpadded := Bytes.ofNat_toNat (paddedBlock key.publicKey.size h message)
  rw [length_paddedBlock hfits] at hpadded
  refine verify_iff.mpr ⟨?_, ?_, ?_, ?_⟩
  · rw [Bytes.length_ofNat]
  · rw [← digestInfo_eq]
    exact hfits
  · rw [hnumber]
    exact hrange
  · rw [hnumber, ← digestInfo_eq, ← power_eq]
    exact (congrArg (Bytes.ofNat _) hundone).trans hpadded

end Rsa

end PolicySeal
