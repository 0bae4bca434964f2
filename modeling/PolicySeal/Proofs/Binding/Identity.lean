import PolicySeal.Proofs.Binding.Evidence
import PolicySeal.Proofs.Policy.Canonical
import PolicySeal.Proofs.Policy.Signed
import PolicySeal.Proofs.Rsa.Signature
import PolicySeal.Proofs.Trust.Chain
import PolicySeal.Proofs.Trust.Loads
/-
  PolicySeal.Proofs.Binding.Identity — a node verifies what it signs.

  Signing and verifying load the same certificate, and loading it once more changes nothing. In
  between, the key of the node meets that of the certificate (`Rsa.verify_sign`), and the signed
  bytes do not depend on the block that is attached. So a policy that the node has signed is
  verified for as long as the certificate is the one of the node, is within its dates and has its
  chain; and whatever else is verified with the block of that signature has the same digest
  (`signWithDefault_verified`).
-/

namespace PolicySeal

open Trust

namespace Service

/-- With the store in this state the certificate of the node is `c`, which is within its dates and, once it has been
loaded, chains up to the root. -/
structure Presents (s : Service) (store : Store) (c : Certificate) : Prop where
  loads : ((load s.paths.signingCert).run store).1 = some (.ok c)
  validFrom : c.validFrom ≤ store.now
  validTo : store.now ≤ c.validTo
  chained : ((isChained s.paths c).run ((load s.paths.signingCert).run store).2).1 = some true

variable {s : Service} {p q : Policy} {store loaded after : Store} {c : Certificate} {k : Rsa.PrivateKey} {h : Hash}
  {v : Bytes} {signed : Policy} {verdict : Verdict}

/-- It stays that of the node when it has been loaded. -/
theorem Presents.after_load (hc : s.Presents store c) : s.Presents ((load s.paths.signingCert).run store).2 c := by
  have hagain := run_load_again (Prod.ext hc.loads rfl)
  have hnow := (Work.run_keeps (load s.paths.signingCert) store).2.2
  refine ⟨congrArg Prod.fst hagain, hnow ▸ hc.validFrom, hnow ▸ hc.validTo, ?_⟩
  rw [hagain]
  exact hc.chained

/-! ## Signing -/

/-- What signing does, once the certificate and the key are known. -/
theorem run_signWithDefault (hload : (load s.paths.signingCert).run store = (some (.ok c), loaded))
    (hkey : (loadKey s.paths.signingKey).run loaded = (some (.ok k), after)) : (s.signWithDefault p).run store =
      (some ((p.rsaSignature k s.config.defaultHash).map fun value =>
        p.attach (.x509 s.config.defaultHash) value c.subject after.now), after) := by
  rw [signWithDefault, Work.run_bind, hload]
  simp only
  rw [Work.run_bind, hkey]
  simp only
  cases p.rsaSignature k s.config.defaultHash <;> rfl

theorem rsaSignature_of_sign? (hsign : Rsa.sign? k (.ofHash h) p.signedBytes = some v) :
    p.rsaSignature k h = .ok (Base64.encode v) := by
  rw [Policy.rsaSignature, hsign]

/-- A policy that was signed has a block with a signature of its bytes. -/
theorem signed_of_run (hload : (load s.paths.signingCert).run store = (some (.ok c), loaded))
    (hkey : (loadKey s.paths.signingKey).run loaded = (some (.ok k), loaded))
    (hrun : (s.signWithDefault p).run store = (some (.ok signed), after)) :
    after = loaded ∧ ∃ v, Rsa.sign? k (.ofHash s.config.defaultHash) p.signedBytes = some v ∧
      signed = p.attach (.x509 s.config.defaultHash) (Base64.encode v) c.subject loaded.now := by
  rw [run_signWithDefault hload hkey] at hrun
  obtain ⟨hresult, rfl⟩ := Prod.mk.inj hrun
  refine ⟨rfl, ?_⟩
  rw [Policy.rsaSignature] at hresult
  cases hsign : Rsa.sign? k (.ofHash s.config.defaultHash) p.signedBytes with
  | none =>
    rw [hsign] at hresult
    cases hresult
  | some v =>
    rw [hsign] at hresult
    exact ⟨v, rfl, (Except.ok.inj (Option.some.inj hresult)).symm⟩

/-! ## Verifying -/

/-- While the node presents the certificate, the verdict under it is that of its key. -/
theorem run_verifyWithDefault (hc : s.Presents store c) (hparts : s.certificateParts q = .ok (h, v)) :
    ((s.verifyWithDefault q).run store).1 = some (keyVerdict q h v c) := by
  have hnow := (Work.run_keeps (load s.paths.signingCert) store).2.2
  have hvalid : c.isValidAt store.now = true := by simp [Certificate.isValidAt, hc.validFrom, hc.validTo]
  rw [verifyWithDefault, verifyAtPath, hparts]
  refine Work.run_bind_eq_some_iff.mpr ⟨_, _, Prod.ext hc.loads rfl, ?_⟩
  simp only
  rw [verifyUnder, Work.run_clock, hnow, hvalid]
  exact Work.run_bind_eq_some_iff.mpr ⟨true, _, Prod.ext hc.chained rfl, rfl⟩

theorem keyVerdict_of_matchesKey (hmatches : q.matchesKey c.key h v = true) :
    (keyVerdict q h v c).status = .verified ∧ (keyVerdict q h v c).valid = true ∧
      (keyVerdict q h v c).mechanism = .x509 ∧ (keyVerdict q h v c).certificate = some c.info := by
  rw [keyVerdict, if_pos hmatches]
  split <;> exact ⟨rfl, rfl, rfl, rfl⟩

theorem certificateHash_x509Name (config : BindingConfig) (h : Hash) : CertificateHash config h.x509Name h := by
  cases h with
  | sha384 => exact .sha384
  | sha512 => exact .sha512

/-! ## Signing, then verifying -/

/-- Let the node have a certificate that it presents, and the key to it. A policy that it signs has a block that names
the subject of the certificate and the configured hash, and is as it was otherwise. As long as the node presents the
certificate, that policy is verified under it, with what is told of the certificate in the verdict; and every policy
that is verified with the same block has the same digest. That is so after signing, without anything done. -/
theorem signWithDefault_verified (s : Service) (p : Policy) (store : Store) (c : Certificate) (k : Rsa.PrivateKey)
    (hc : s.Presents store c) (hk : ((loadKey s.paths.signingKey).run store).1 = some (.ok k))
    (hpair : k.publicKey = c.key) (signed : Policy) (after : Store)
    (hrun : (s.signWithDefault p).run store = (some (.ok signed), after)) :
    (∃ block, signed = p.withSignature block ∧ block.signerId = c.subject ∧
      block.algorithm = s.config.defaultHash.x509Name) ∧
    s.Presents after c ∧
    ∀ later, s.Presents later c →
      (∃ verdict, ((s.verifyWithDefault signed).run later).1 = some verdict ∧ verdict.status = .verified ∧
        verdict.valid = true ∧ verdict.mechanism = .x509 ∧ verdict.certificate = some c.info) ∧
      ∀ q verdict, q.signature = signed.signature → ((s.verifyWithDefault q).run later).1 = some verdict →
        verdict.status = .verified →
          s.config.defaultHash.digest q.signedBytes = s.config.defaultHash.digest p.signedBytes := by
  have hload : (load s.paths.signingCert).run store = (some (.ok c), ((load s.paths.signingCert).run store).2) :=
    Prod.ext hc.loads rfl
  have hkey : (loadKey s.paths.signingKey).run ((load s.paths.signingCert).run store).2
      = (some (.ok k), ((load s.paths.signingCert).run store).2) := by
    rw [run_loadKey (Work.run_keeps (load s.paths.signingCert) store).1, hk]
  obtain ⟨rfl, v, hsign, rfl⟩ := signed_of_run hload hkey hrun
  have hverifies : Rsa.verify c.key (.ofHash s.config.defaultHash) p.signedBytes v = true :=
    hpair ▸ Rsa.verify_sign hsign
  -- Whatever has the block is checked with the configured hash and the bytes of the signature.
  have hparts : ∀ q : Policy, q.signature = (p.attach (.x509 s.config.defaultHash) (Base64.encode v) c.subject
      ((load s.paths.signingCert).run store).2.now).signature → s.certificateParts q = .ok (s.config.defaultHash, v) := by
    intro q hq
    have hlong := (Rsa.verify_iff.mp hverifies).long
    have hne : v ≠ [] := List.ne_nil_of_length_pos (by omega)
    exact certificateParts_eq_ok_iff.mpr ⟨_, hq, certificateHash_x509Name _ _, decodeSignatureValue_encode hne⟩
  refine ⟨⟨_, rfl, rfl, rfl⟩, hc.after_load, fun later hlater => ⟨?_, fun q verdict hq hrun' hverified => ?_⟩⟩
  · refine ⟨_, run_verifyWithDefault hlater (hparts _ rfl), keyVerdict_of_matchesKey ?_⟩
    rw [Policy.matchesKey, Policy.attach, Policy.signedBytes_withSignature]
    exact hverifies
  · rw [run_verifyWithDefault hlater (hparts q hq)] at hrun'
    obtain rfl := Option.some.inj hrun'
    have hmatches : Rsa.verify c.key (.ofHash s.config.defaultHash) q.signedBytes v = true :=
      keyVerdict_verified_iff.2.mp hverified
    have hdigest := ((Rsa.verify_iff.mp hmatches).unique (Rsa.verify_iff.mp hverifies)).2
    rwa [Digest.Kind.digest_ofHash] at hdigest

/-! ## A node that is its own root -/

def nodeKey : Rsa.PrivateKey where
  modulus := 0xD94D5B3CDD9A2C0A10F5DBFBD1BD99715754B43FF29896176E6733601B6B0434BDFB56CDA7F75D1E111B3F015FB654D5DDED7D785DF109CF110C75C1DABBB1E14346E750E5E526E718C4AFA31FF99CFF
  exponent := 3
  secret := 0x24378F34CF99B201AD7E4F54A2F4EEE83938C8B553196E593D11333AAF3C80B374FF392246A93A2F5EE121D8A002A3CA6E312EDA2BE60A67FC0E3D8DCD59AC4CA68376332F757EC5B92F0493980470A3
  firstPrime := 0xE6C43DD2464109FDB44D2FB7039A4D457376E9B28777EA10ABA850589D125907EB1879EEC194C939
  secondPrime := 0xF110361B59657419947934A452F27E19B5401ABC8329BE04B089D1C52C11D53CD6921A3ECE4A2FF7

def nodeSignature : Nat :=
  0xCE346C4D57B89A85FD1A1ACA468D2FBCDEC47B253CA3830B6CF2E12F38EC5319147499EA1EF4BE2D5D0908DCC1197337D54AA8D9D2DF0429D727A7198E427CB1CF7F74F411BC780C09C8A54B72F66A16

/-- Signed with its own key, valid in 2025. -/
def nodeCertificate : Certificate where
  document :=
    { rootDocument with
      statement := { rootDocument.statement with key := .ofRsa nodeKey.publicKey }
      signature := .ofBytes (Bytes.ofNat 80 nodeSignature) }
  key := nodeKey.publicKey
  usages := []

/-- A node with one certificate. -/
def rootNode : Service where
  config := {}
  paths :=
    { TrustPaths.under ⟨"certs"⟩ with
      rootCert := ⟨"node.crt"⟩, intermediateCert := ⟨"node.crt"⟩, signingCert := ⟨"node.crt"⟩, signingKey := ⟨"node.key"⟩ }

/-- The certificate is in the cache, the key has to be read. -/
def nodeStore : Store where
  source path := if path = ⟨"node.key"⟩ then .text nodeKey.text else .absent
  ttl := TrustConfig.ttl {}
  now := ⟨1735700000000⟩
  cache := [⟨⟨"node.crt"⟩, nodeCertificate, ⟨1735700000000⟩⟩]

theorem nodeKey_read : Rsa.PrivateKey.ofText nodeKey.text = .ok nodeKey := by
  have hplain : Text.occurs Rsa.PrivateKey.encryptedMark.toList (Text.trim nodeKey.text).toList = false := by
    rw [Text.trim, Rsa.PrivateKey.text, Text.ofAscii, String.toList_ofList, String.toList_ofList]
    decide +kernel
  have hinfo : Rsa.PrivateKey.ofDocument? Rsa.PrivateKey.infoLabel Rsa.PrivateKey.ofInfo?
      (Text.utf8 (Text.trim nodeKey.text)) = some nodeKey := by
    rw [Text.utf8, Text.trim, Rsa.PrivateKey.text, Text.ofAscii, String.toList_ofList, String.toList_ofList]
    decide +kernel
  simp only [Rsa.PrivateKey.ofText, hplain, hinfo]
  rfl

theorem load_nodeCertificate : (load ⟨"node.crt"⟩).run nodeStore = (some (.ok nodeCertificate), nodeStore) := rfl

theorem rootNode_presents : rootNode.Presents nodeStore nodeCertificate := by
  have hissued : nodeCertificate.issuance nodeCertificate = .ok () :=
    Certificate.issuance_eq_ok_iff.mpr ⟨.sha256, Bytes.ofNat 80 nodeSignature, by decide +kernel, rfl, by decide +kernel⟩
  have hchained : ((isChained rootNode.paths nodeCertificate).run nodeStore).1
      = some (isLinked nodeCertificate nodeCertificate nodeCertificate) := rfl
  have hload : (load rootNode.paths.signingCert).run nodeStore = (some (.ok nodeCertificate), nodeStore) :=
    load_nodeCertificate
  refine ⟨congrArg Prod.fst hload, by decide +kernel, by decide +kernel, ?_⟩
  rw [hload, hchained]
  simp [isLinked, hissued, isOk]

theorem taggedPolicy_signedMembers : Canonical.members taggedPolicy.members =
    [("policyAssertions", .array []), ("policyVersion", .string "1.0"), ("securityLabel", .object plainPolicy.label.view)] := by
  refine Canonical.members_eq_of_sorted (by decide) ?_ (by decide +kernel)
  exact show List.Perm ([_, _] ++ [_]) ([_] ++ [_, _]) from List.perm_append_comm

theorem nodeKey_signs :
    ∃ v, Rsa.sign? nodeKey (.ofHash rootNode.config.defaultHash) taggedPolicy.signedBytes = some v := by
  refine Option.isSome_iff_exists.mp ?_
  rw [Policy.signedBytes, Policy.canonical, Canonical.text, taggedPolicy_signedMembers]
  decide +kernel

/-- A policy that had a tag before is signed, and the signature is verified and tells its digest. -/
theorem taggedPolicy_signed_verified :
    ∃ signed after, (rootNode.signWithDefault taggedPolicy).run nodeStore = (some (.ok signed), after) ∧
      (∃ verdict, ((rootNode.verifyWithDefault signed).run after).1 = some verdict ∧ verdict.status = .verified ∧
        verdict.certificate = some nodeCertificate.info) ∧
      Hash.sha384.digest signed.signedBytes = Hash.sha384.digest taggedPolicy.signedBytes := by
  obtain ⟨v, hsign⟩ := nodeKey_signs
  have hkey : (loadKey rootNode.paths.signingKey).run nodeStore = (some (.ok nodeKey), nodeStore) := by
    have hread : (loadKey rootNode.paths.signingKey).run nodeStore
        = (some (Rsa.PrivateKey.ofText nodeKey.text), nodeStore) := rfl
    rw [hread, nodeKey_read]
  have hrun := run_signWithDefault (p := taggedPolicy) load_nodeCertificate hkey
  rw [rsaSignature_of_sign? hsign] at hrun
  obtain ⟨-, hpresents, hverified⟩ := signWithDefault_verified rootNode taggedPolicy nodeStore nodeCertificate nodeKey
    rootNode_presents (congrArg Prod.fst hkey) rfl _ _ hrun
  obtain ⟨⟨verdict, hverdict, hstatus, -, -, hinfo⟩, hdigest⟩ := hverified nodeStore hpresents
  exact ⟨_, _, hrun, ⟨verdict, hverdict, hstatus, hinfo⟩, hdigest _ verdict rfl hverdict hstatus⟩

end Service

end PolicySeal
