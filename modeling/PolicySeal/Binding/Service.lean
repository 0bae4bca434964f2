import PolicySeal.Binding.Signing
import PolicySeal.Binding.Verdict
import PolicySeal.Config.Binding
import PolicySeal.Trust.Store
/-
  PolicySeal.Binding.Service — signing policies and verifying them, as a node is configured.

  Signing may fail; verifying always comes to a verdict. What is wrong with a signature block
  is found before the store of certificates is touched. A certificate has to be within its
  dates, without tolerance, before its signature is looked at.

  - `signWithDefault`, `signWithSecret` sign;
  - `verifyWithDefault`, `verifyWithCertificate`, `verifyWithSecret` verify in a given way;
  - `verifyAuto` lets the signature block choose, `verifyAll` does so for many policies.
-/

namespace PolicySeal

open Trust Time

structure Service where
  config : BindingConfig
  /-- Where the certificates of the node are. -/
  paths : TrustPaths
  deriving DecidableEq

namespace Service

/-! ## Signing -/

/-- Signs with the key of the node, in the name of its certificate. -/
def signWithDefault (s : Service) (p : Policy) : Work (Except Fault Policy) := do
  match ← load s.paths.signingCert with
  | .error fault => return .error fault
  | .ok certificate =>
    match ← loadKey s.paths.signingKey with
    | .error fault => return .error fault
    | .ok key =>
      match p.rsaSignature key s.config.defaultHash with
      | .error fault => return .error fault
      | .ok value =>
        let attached (now : Instant) : Policy := p.attach (.x509 s.config.defaultHash) value certificate.subject now
        .clock fun now => .done (.ok (attached now))

def signWithSecret (p : Policy) (secret : Secret) (h : Hash) (signerId : String) : Work (Except Fault Policy) :=
  .clock fun now => .done (p.signedWithSecret secret h signerId now)

/-! ## Verifying under a certificate -/

def notThatKind (algorithm kind : String) : String :=
  "'" ++ algorithm ++ "' is not an " ++ kind ++ " signature algorithm"

/-- The hash and the bytes of a signature that is to be checked under a certificate. -/
def certificateParts (s : Service) (p : Policy) : Except Verdict (Hash × Bytes) :=
  match p.signature with
  | none => .error (.unsigned false)
  | some block =>
    let decoded (h : Hash) : Except Verdict (Hash × Bytes) :=
      match decodeSignatureValue block.value with
      | .ok bytes => .ok (h, bytes)
      | .error reason => .error (.failed .x509 .malformedSignature reason.message)
    match Scheme.ofName? block.algorithm with
    | .ok (.x509 h) => decoded h
    | .ok .auto => decoded s.config.defaultHash
    | .ok (.hmac _) => .error (.failed .x509 .unsupportedAlgorithm (notThatKind block.algorithm "X.509"))
    | .error fault => .error (.failed .x509 .unsupportedAlgorithm fault.message)

def outsideDatesText (now : Instant) (c : Certificate) : String :=
  "Signing certificate is not valid at " ++ now.words ++ " (valid from " ++ c.validFrom.words ++ " to "
    ++ c.validTo.words ++ ")"

/-- The verdict on a signature under a certificate that is in order. -/
def keyVerdict (p : Policy) (h : Hash) (signature : Bytes) (c : Certificate) : Verdict :=
  if p.matchesKey c.key h signature then
    let verdict : Verdict := { Verdict.verified .x509 with certificate := some c.info }
    if c.hasUsage .digitalSignature then verdict
    else verdict.withWarning "Signing certificate does not assert digitalSignature key usage"
  else .failed .x509 .signatureMismatch "Signature verification failed"

def verifyUnder (s : Service) (p : Policy) (h : Hash) (signature : Bytes) (c : Certificate) (verifyChain : Bool) :
    Work Verdict :=
  .clock fun now =>
    if !c.isValidAt now then .done (.failed .x509 .certificateExpired (outsideDatesText now c))
    else if verifyChain then do
      if ← isChained s.paths c then return keyVerdict p h signature c
      else return .failed .x509 .chainValidation "Certificate chain validation failed"
    else .done (keyVerdict p h signature c)

/-- Verifies under the certificate at a path. -/
def verifyAtPath (s : Service) (p : Policy) (path : Path) (verifyChain : Bool) : Work Verdict :=
  match s.certificateParts p with
  | .error verdict => .done verdict
  | .ok (h, signature) => do
    match ← load path with
    | .ok c => s.verifyUnder p h signature c verifyChain
    | .error fault => return .failed .x509 .certificateUnavailable fault.message

/-- Verifies under the node's own signing certificate. -/
def verifyWithDefault (s : Service) (p : Policy) : Work Verdict := s.verifyAtPath p s.paths.signingCert true

/-- Verifies under a certificate that is given as text. -/
def verifyWithCertificate (s : Service) (p : Policy) (text : String) (verifyChain : Bool) : Work Verdict :=
  match s.certificateParts p with
  | .error verdict => .done verdict
  | .ok (h, signature) =>
    match Certificate.ofText text with
    | .ok c => s.verifyUnder p h signature c verifyChain
    | .error fault => .done (.failed .x509 .certificateInvalid ("Invalid signing certificate: " ++ fault.message))

/-! ## Verifying with a secret -/

/-- The hash of a signature that is to be checked with a secret; `auto` stands for SHA-384. -/
def secretHash (block : SignatureBlock) : Except Verdict Hash :=
  match Scheme.ofName? block.algorithm with
  | .ok (.hmac h) => .ok h
  | .ok .auto => .ok .sha384
  | .ok (.x509 _) => .error (.failed .hmac .unsupportedAlgorithm (notThatKind block.algorithm "HMAC"))
  | .error fault => .error (.failed .hmac .unsupportedAlgorithm fault.message)

def verifyWithSecret (p : Policy) (secret : Secret) : Verdict :=
  match p.signature with
  | none => .unsigned false
  | some block =>
    match secretHash block with
    | .error verdict => verdict
    | .ok h =>
      if secret.isEmpty then .failed .hmac .configuration "HMAC secret is empty"
      else
        match decodeSignatureValue block.value with
        | .error reason => .failed .hmac .malformedSignature reason.message
        | .ok signature =>
          if p.matchesSecret secret h signature then .verified .hmac
          else .failed .hmac .signatureMismatch "HMAC signature mismatch"

/-! ## Verifying as the block says -/

def isProduction (s : Service) : Bool := s.config.profile == .production

/-- There is nothing configured to check a signature with. -/
def unconfigured (s : Service) (warning : String) : Verdict := .unverified (!s.isProduction) warning

def unsignedVerdict (s : Service) : Verdict :=
  if s.isProduction then .unsigned false else (Verdict.unsigned true).withWarning "Policy is not signed"

/-- Verifies under the configured certificate. -/
def verifyConfigured (s : Service) (p : Policy) (path : Path) : Work Verdict :=
  s.verifyAtPath p path s.config.verifyChain

/-- A signature that leaves its scheme open is tried under the certificate first, then with the
secret. -/
def verifyOpen (s : Service) (p : Policy) : Work Verdict :=
  match s.config.certificatePath, s.config.secret with
  | none, none =>
    .done (s.unconfigured "Policy signature present but no verification mechanism is configured")
  | none, some secret => .done (verifyWithSecret p secret)
  | some path, none => s.verifyConfigured p path
  | some path, some secret => do
    let verdict ← s.verifyConfigured p path
    return if verdict.valid then verdict else verifyWithSecret p secret

def verifyAuto (s : Service) (p : Policy) : Work Verdict :=
  match p.signature with
  | none => .done s.unsignedVerdict
  | some block =>
    match Scheme.ofName? block.algorithm with
    | .error fault => .done (.failed .none .unsupportedAlgorithm fault.message)
    | .ok (.x509 _) =>
      match s.config.certificatePath with
      | some path => s.verifyConfigured p path
      | none =>
        .done (s.unconfigured "X.509 policy signature present but no verification certificate is configured")
    | .ok (.hmac _) =>
      match s.config.secret with
      | some secret => .done (verifyWithSecret p secret)
      | none => .done (s.unconfigured "HMAC policy signature present but no HMAC secret is configured")
    | .ok .auto => s.verifyOpen p

/-! ## Many policies -/

/-- The verdict on a policy whose verification broke down. -/
def didNotComplete : Verdict := .failed .none .configuration "Verification did not complete"

/-- The verdicts on policies, in their order. -/
def verifyAll (s : Service) : List Policy → Work (List Verdict)
  | [] => return []
  | p :: rest => do
    let verdict ← (s.verifyAuto p).attempt
    return verdict.getD didNotComplete :: (← s.verifyAll rest)

end Service

end PolicySeal
