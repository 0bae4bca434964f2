import PolicySeal.Proofs.Binding.Evidence
/-
  PolicySeal.Proofs.Binding.Ways — the ways of verifying a policy, and the checks they make.

  A signature can be put to four checks, one for each hash under a key and one for each hash
  with a secret (`Check`); the algorithm of a block stands for one of them, or for two where it
  leaves its scheme open. In whatever way a policy with a block is verified (`Way`), the verdict
  is settled: it is a failure, or the signature passed a check that the algorithm stands for,
  and the mechanism of the verdict tells which one (`verifyBy_settled`).
-/

namespace PolicySeal

open Trust

/-! ## Checks -/

inductive Check where
  | key (h : Hash)
  | secret (h : Hash)
  deriving DecidableEq

namespace Check

def mechanism : Check → Mechanism
  | key _ => .x509
  | secret _ => .hmac

/-- Whether the bytes pass as a signature of the policy. -/
def accepts (k : Rsa.PublicKey) (secret : Secret) (p : Policy) (signature : Bytes) : Check → Bool
  | .key h => p.matchesKey k h signature
  | .secret h => p.matchesSecret secret h signature

end Check

/-- The checks that an algorithm stands for. -/
inductive StandsFor (config : BindingConfig) (name : String) : Check → Prop
  | key {h : Hash} (hh : CertificateHash config name h) : StandsFor config name (.key h)
  | secret {h : Hash} (hh : SecretHash name h) : StandsFor config name (.secret h)

/-- The mechanism tells the check that an algorithm stands for. -/
theorem StandsFor.unique {config : BindingConfig} {name : String} {a b : Check} (ha : StandsFor config name a)
    (hb : StandsFor config name b) (hm : a.mechanism = b.mechanism) : a = b := by
  cases ha with
  | key ha =>
    cases hb with
    | key hb => rw [ha.unique hb]
    | secret hb => cases hm
  | secret ha =>
    cases hb with
    | key hb => cases hm
    | secret hb => rw [ha.unique hb]

/-- The signature in the block passed a check that the algorithm stands for, and the verdict says so; or the verdict is
a failure. -/
inductive Settled (config : BindingConfig) (k : Rsa.PublicKey) (secret : Secret) (p : Policy) (block : SignatureBlock)
    (verdict : Verdict) : Prop
  | verified (check : Check) (v : Bytes) (hfor : StandsFor config block.algorithm check)
      (hv : decodeSignatureValue block.value = .ok v) (haccepts : check.accepts k secret p v = true)
      (hstatus : verdict.status = .verified) (hmechanism : verdict.mechanism = check.mechanism)
  | failed (m : Mechanism) (f : Failure) (e : String) (h : verdict = .failed m f e)

/-! ## Ways -/

/-- The ways of verifying a policy. -/
inductive Way where
  /-- As its block says, with what is configured. -/
  | auto
  /-- Under the certificate of the node. -/
  | default
  /-- Under a certificate that is given as text. -/
  | certificate (text : String) (verifyChain : Bool)
  /-- With a secret that is given. -/
  | secret (secret : Secret)

namespace Service

def verifyBy (s : Service) (p : Policy) : Way → Work Verdict
  | .auto => s.verifyAuto p
  | .default => s.verifyWithDefault p
  | .certificate text verifyChain => s.verifyWithCertificate p text verifyChain
  | .secret secret => .done (verifyWithSecret p secret)

/-- What a certificate that is loaded from the path has as its key. -/
def LoadsKey (store : Store) (path : Path) (k : Rsa.PublicKey) : Prop :=
  ∀ c, ((load path).run store).1 = some (.ok c) → c.key = k

/-- Signatures are checked under this key and with this secret. -/
def Uses (s : Service) (store : Store) (k : Rsa.PublicKey) (secret : Secret) : Way → Prop
  | .auto => (∃ path, s.config.certificatePath = some path ∧ LoadsKey store path k) ∧ s.config.secret = some secret
  | .default => LoadsKey store s.paths.signingCert k
  | .certificate text _ => ∀ c, Certificate.ofText text = .ok c → c.key = k
  | .secret given => given = secret

variable {s : Service} {p : Policy} {store : Store} {k : Rsa.PublicKey} {secret : Secret} {block : SignatureBlock}
  {h : Hash} {v : Bytes} {c : Certificate} {verdict : Verdict}

/-! ## Under a certificate -/

theorem certificateParts_settled (hs : p.signature = some block) (he : s.certificateParts p = .error verdict) :
    Settled s.config k secret p block verdict := by
  simp only [certificateParts, hs] at he
  split at he
  · split at he
    · cases he
    · exact .failed _ _ _ (Except.error.inj he).symm
  · split at he
    · cases he
    · exact .failed _ _ _ (Except.error.inj he).symm
  · exact .failed _ _ _ (Except.error.inj he).symm
  · exact .failed _ _ _ (Except.error.inj he).symm

theorem keyVerdict_settled (hfor : CertificateHash s.config block.algorithm h)
    (hv : decodeSignatureValue block.value = .ok v) (hkey : c.key = k) :
    Settled s.config k secret p block (keyVerdict p h v c) := by
  subst hkey
  rw [keyVerdict]
  split
  · rename_i hmatches
    split
    · exact .verified (.key h) v (.key hfor) hv hmatches rfl rfl
    · exact .verified (.key h) v (.key hfor) hv hmatches rfl rfl
  · exact .failed _ _ _ rfl

theorem verifyUnder_settled (hfor : CertificateHash s.config block.algorithm h)
    (hv : decodeSignatureValue block.value = .ok v) (hkey : c.key = k) {verifyChain : Bool}
    (hrun : ((s.verifyUnder p h v c verifyChain).run store).1 = some verdict) :
    Settled s.config k secret p block verdict := by
  rw [verifyUnder, Work.run_clock] at hrun
  split at hrun
  · exact .failed _ _ _ (Option.some.inj hrun).symm
  · split at hrun
    · obtain ⟨chained, after, -, hverdict⟩ := Work.run_bind_eq_some_iff.mp hrun
      cases chained with
      | true => exact Option.some.inj hverdict ▸ keyVerdict_settled hfor hv hkey
      | false => exact .failed _ _ _ (Option.some.inj hverdict).symm
    · exact Option.some.inj hrun ▸ keyVerdict_settled hfor hv hkey

/-- What the parts of a block that is checked under a certificate are. -/
theorem parts_of_certificateParts (hs : p.signature = some block) (hparts : s.certificateParts p = .ok (h, v)) :
    CertificateHash s.config block.algorithm h ∧ decodeSignatureValue block.value = .ok v := by
  obtain ⟨b, hb, hfor, hv⟩ := certificateParts_eq_ok_iff.mp hparts
  obtain rfl : block = b := Option.some.inj (hs.symm.trans hb)
  exact ⟨hfor, hv⟩

theorem verifyAtPath_settled (hs : p.signature = some block) {path : Path} (hkey : LoadsKey store path k)
    {verifyChain : Bool} (hrun : ((s.verifyAtPath p path verifyChain).run store).1 = some verdict) :
    Settled s.config k secret p block verdict := by
  rw [verifyAtPath] at hrun
  split at hrun
  · rename_i early he
    exact Option.some.inj hrun ▸ certificateParts_settled hs he
  · rename_i h v hparts
    obtain ⟨hfor, hv⟩ := parts_of_certificateParts hs hparts
    obtain ⟨loaded, after, hload, hverdict⟩ := Work.run_bind_eq_some_iff.mp hrun
    cases loaded with
    | error fault => exact .failed _ _ _ (Option.some.inj hverdict).symm
    | ok c => exact verifyUnder_settled hfor hv (hkey c (congrArg Prod.fst hload)) hverdict

theorem verifyWithCertificate_settled (hs : p.signature = some block) {text : String}
    (hkey : ∀ c, Certificate.ofText text = .ok c → c.key = k) {verifyChain : Bool}
    (hrun : ((s.verifyWithCertificate p text verifyChain).run store).1 = some verdict) :
    Settled s.config k secret p block verdict := by
  rw [verifyWithCertificate] at hrun
  split at hrun
  · rename_i early he
    exact Option.some.inj hrun ▸ certificateParts_settled hs he
  · rename_i h v hparts
    obtain ⟨hfor, hv⟩ := parts_of_certificateParts hs hparts
    split at hrun
    · rename_i c hc
      exact verifyUnder_settled hfor hv (hkey c hc) hrun
    · exact .failed _ _ _ (Option.some.inj hrun).symm

/-! ## With a secret -/

theorem verifyWithSecret_settled (hs : p.signature = some block) :
    Settled s.config k secret p block (verifyWithSecret p secret) := by
  rw [verifyWithSecret]
  simp only [hs]
  split
  · rename_i early he
    rw [secretHash] at he
    split at he <;> cases he
    · exact .failed _ _ _ rfl
    · exact .failed _ _ _ rfl
  · rename_i h hh
    split
    · exact .failed _ _ _ rfl
    · split
      · exact .failed _ _ _ rfl
      · rename_i v hv
        split
        · rename_i hmatches
          exact .verified (.secret h) v (.secret (secretHash_eq_ok_iff.mp hh)) hv hmatches rfl rfl
        · exact .failed _ _ _ rfl

/-! ## In any way -/

theorem verifyAuto_settled (hs : p.signature = some block) {path : Path} (hpath : s.config.certificatePath = some path)
    (hkey : LoadsKey store path k) (hsecret : s.config.secret = some secret)
    (hrun : ((s.verifyAuto p).run store).1 = some verdict) : Settled s.config k secret p block verdict := by
  simp only [verifyAuto, hs, hpath, hsecret] at hrun
  split at hrun
  · exact .failed _ _ _ (Option.some.inj hrun).symm
  · exact verifyAtPath_settled hs hkey hrun
  · exact Option.some.inj hrun ▸ verifyWithSecret_settled hs
  · simp only [verifyOpen, hpath, hsecret] at hrun
    obtain ⟨first, after, hfirst, hverdict⟩ := Work.run_bind_eq_some_iff.mp hrun
    obtain rfl : (if first.valid then first else verifyWithSecret p secret) = verdict := Option.some.inj hverdict
    split
    · exact verifyAtPath_settled hs hkey (congrArg Prod.fst hfirst)
    · exact verifyWithSecret_settled hs

/-- The verdict on a policy with a block is settled, in whatever way it is verified. -/
theorem verifyBy_settled (hs : p.signature = some block) {way : Way} (huses : s.Uses store k secret way)
    (hrun : ((s.verifyBy p way).run store).1 = some verdict) : Settled s.config k secret p block verdict := by
  cases way with
  | auto =>
    obtain ⟨⟨path, hpath, hkey⟩, hsecret⟩ := huses
    exact verifyAuto_settled hs hpath hkey hsecret hrun
  | default => exact verifyAtPath_settled hs huses hrun
  | certificate text verifyChain =>
    have hverdict : ((s.verifyWithCertificate p text verifyChain).run store).1 = some verdict := hrun
    exact verifyWithCertificate_settled hs huses hverdict
  | secret given =>
    obtain rfl : given = secret := huses
    exact Option.some.inj hrun ▸ verifyWithSecret_settled hs

theorem verifyAtPath_ends (path : Path) (verifyChain : Bool) : (s.verifyAtPath p path verifyChain).Ends := by
  rw [verifyAtPath]
  split
  · exact Work.ends_done _
  · refine (load_ends path).bind fun loaded => ?_
    cases loaded with
    | error fault => exact Work.ends_done _
    | ok c => exact verifyUnder_ends _

/-- There is a verdict in every way, as long as the source of certificates answers. -/
theorem verifyBy_ends (way : Way) : (s.verifyBy p way).Ends := by
  cases way with
  | auto => exact verifyAuto_ends
  | default => exact verifyAtPath_ends _ _
  | certificate text verifyChain =>
    simp only [verifyBy, verifyWithCertificate]
    split
    · exact Work.ends_done _
    · split
      · exact verifyUnder_ends _
      · exact Work.ends_done _
  | secret given => exact Work.ends_done _

end Service

end PolicySeal
