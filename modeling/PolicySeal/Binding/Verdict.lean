import PolicySeal.Certificate.Info
/-
  PolicySeal.Binding.Verdict — the outcome of verifying one policy.

  `valid` says whether the policy is accepted, which outside production may be so without a
  signature; `isTamperChecked` says whether a signature was checked and matched. A verdict is
  written as JSON for audits, absent parts left out, and read back from it.
-/

namespace PolicySeal

open Json

/-- The mechanism that came to the verdict. -/
inductive Mechanism where
  | x509
  | hmac
  | none
  deriving DecidableEq

inductive Status where
  /-- The signature was checked and matched. -/
  | verified
  /-- The signature was rejected, or could not be checked. -/
  | failed
  /-- There is no signature. -/
  | unsigned
  /-- There is a signature and nothing to check it with. -/
  | unverified
  deriving DecidableEq

inductive Failure where
  | noSignature
  | malformedSignature
  | unsupportedAlgorithm
  | certificateInvalid
  | certificateExpired
  | certificateUnavailable
  | chainValidation
  | signatureMismatch
  | configuration
  | invalidDocument
  deriving DecidableEq

structure Verdict where
  valid : Bool
  status : Status
  mechanism : Mechanism
  error : Option String := none
  failure : Option Failure := none
  certificate : Option CertificateInfo := none
  warnings : List String := []
  deriving DecidableEq

namespace Mechanism

def all : List Mechanism := [x509, hmac, none]

def name : Mechanism → String
  | x509 => "x509"
  | hmac => "hmac"
  | none => "none"

/-- The name in lists for people. -/
def label : Mechanism → String
  | x509 => "X509"
  | hmac => "Hmac"
  | none => "None"

end Mechanism

namespace Status

def all : List Status := [verified, failed, unsigned, unverified]

def name : Status → String
  | verified => "verified"
  | failed => "failed"
  | unsigned => "unsigned"
  | unverified => "unverified"

end Status

namespace Failure

def all : List Failure :=
  [noSignature, malformedSignature, unsupportedAlgorithm, certificateInvalid, certificateExpired,
    certificateUnavailable, chainValidation, signatureMismatch, configuration, invalidDocument]

def name : Failure → String
  | noSignature => "no_signature"
  | malformedSignature => "malformed_signature"
  | unsupportedAlgorithm => "unsupported_algorithm"
  | certificateInvalid => "certificate_invalid"
  | certificateExpired => "certificate_expired"
  | certificateUnavailable => "certificate_unavailable"
  | chainValidation => "chain_validation"
  | signatureMismatch => "signature_mismatch"
  | configuration => "configuration"
  | invalidDocument => "invalid_document"

end Failure

namespace Verdict

def verified (mechanism : Mechanism) : Verdict := { valid := true, status := .verified, mechanism }

def failed (mechanism : Mechanism) (failure : Failure) (error : String) : Verdict :=
  { valid := false, status := .failed, mechanism, error := some error, failure := some failure }

/-- The policy has no signature block. -/
def unsigned (valid : Bool) : Verdict :=
  { valid, status := .unsigned, mechanism := .none
    error := if valid then none else some "No signature present"
    failure := if valid then none else some .noSignature }

/-- The policy has a signature block and nothing is configured to check it. -/
def unverified (valid : Bool) (warning : String) : Verdict :=
  { valid, status := .unverified, mechanism := .none
    error := if valid then none else some warning
    failure := if valid then none else some .configuration
    warnings := [warning] }

def withWarning (v : Verdict) (warning : String) : Verdict := { v with warnings := v.warnings ++ [warning] }

/-- A signature was checked and matched. -/
def isTamperChecked (v : Verdict) : Bool := v.valid && v.status == .verified

/-! ## JSON -/

def member {α : Type} (name : String) (toJson : α → Json) : Option α → Members
  | some a => [(name, toJson a)]
  | none => []

def toJson (v : Verdict) : Json :=
  .object ([("valid", .bool v.valid), ("status", .string v.status.name),
      ("signatureType", .string v.mechanism.name)]
    ++ member "error" .string v.error
    ++ member "failure" (fun f => .string f.name) v.failure
    ++ member "certificateInfo" CertificateInfo.toJson v.certificate
    ++ if v.warnings.isEmpty then [] else [("warnings", strings v.warnings)])

def statuses : Draft.Reader Status := Draft.variant (Status.all.map fun s => (s.name, s))
def mechanisms : Draft.Reader Mechanism := Draft.variant (Mechanism.all.map fun m => (m.name, m))
def failures : Draft.Reader Failure := Draft.variant (Failure.all.map fun f => (f.name, f))

def fields : List Draft.Field :=
  [.of "valid" Draft.bool false, .of "status" statuses false, .of "signatureType" mechanisms false,
    .of "error" (Draft.optional Draft.string) true, .of "failure" (Draft.optional failures) true,
    .of "certificateInfo" (Draft.optional CertificateInfo.ofDraft) true,
    .of "warnings" (Draft.list Draft.string) true]

def ofDraft : Draft.Reader Verdict := fun d => do
  let slots ← Draft.record "SignatureVerificationResult" fields d
  return {
    valid := ← slots.required "valid" Draft.bool
    status := ← slots.required "status" statuses
    mechanism := ← slots.required "signatureType" mechanisms
    error := ← slots.orElse "error" (Draft.optional Draft.string) none
    failure := ← slots.orElse "failure" (Draft.optional failures) none
    certificate := ← slots.orElse "certificateInfo" (Draft.optional CertificateInfo.ofDraft) none
    warnings := ← slots.orElse "warnings" (Draft.list Draft.string) [] }

def ofText (text : String) : Except ReadError Verdict := Draft.readText ofDraft text

end Verdict

end PolicySeal
