import PolicySeal.Config.Trust
import PolicySeal.Scheme
import PolicySeal.Secret
/-
  PolicySeal.Config.Binding — how signatures are made and verified.

  In production a gap in the configuration is a failure, in development a warning. A profile
  that is not recognised counts as production.
-/

namespace PolicySeal

open Json

inductive Profile where
  | development
  | production
  deriving DecidableEq

namespace Profile

def name : Profile → String
  | development => "development"
  | production => "production"

/-- Reads a profile in any case with white space around it; an unknown one is reported as read. -/
def ofName? (text : String) : Except String Profile :=
  match Text.lower (Text.trim text) with
  | "development" => .ok development
  | "dev" => .ok development
  | "production" => .ok production
  | "prod" => .ok production
  | other => .error ("unknown deployment profile '" ++ other ++ "'")

end Profile

structure BindingConfig where
  /-- The certificate that signatures by certificate are checked under. -/
  certificatePath : Option Path := none
  /-- The secret that keyed hashes are checked under; it is never written. -/
  secret : Option Secret := none
  /-- The hash of new signatures by certificate, and of those that do not name one. -/
  defaultHash : Hash := .sha384
  verifyChain : Bool := true
  profile : Profile := .development
  batchConcurrency : Nat := 8
  deriving DecidableEq

namespace BindingConfig

def ofEnvironment (env : Environment) : BindingConfig :=
  { certificatePath := (env.value? "POLICY_SIGNATURE_CERT_PATH").map Path.mk
    secret := (env.value? "POLICY_SIGNATURE_HMAC_SECRET").map Secret.ofText
    defaultHash :=
      match (env.value? "POLICY_SIGNATURE_ALGORITHM").map Hash.ofName? with
      | some (.ok h) => h
      | _ => .sha384
    verifyChain :=
      match env.value? "POLICY_SIGNATURE_VERIFY_CHAIN" with
      | some v => !(v == "0" || Text.sameLetters v "false")
      | none => true
    profile :=
      match (env.value? "POLICY_BINDING_PROFILE").map Profile.ofName? with
      | some (.ok p) => p
      | some (.error _) => .production
      | none => .development
    batchConcurrency := max 1 (env.numberOr "POLICY_VERIFY_CONCURRENCY" 8) }

def hashes : List (String × Hash) := [("Sha384", .sha384), ("Sha512", .sha512)]
def profiles : List (String × Profile) := [("development", .development), ("production", .production)]

def certificate : Draft.Reader (Option Path) := fun d => (Draft.optional Draft.path d).map (·.map Path.mk)

def fields : List Draft.Field :=
  [.of "certificate_path" certificate true, .of "default_algorithm" (Draft.variant hashes) true,
    .of "verify_chain" Draft.bool true, .of "profile" (Draft.variant profiles) true,
    .of "batch_concurrency" (Draft.natural "usize") true]

def ofDraft : Draft.Reader BindingConfig := fun d => do
  let slots ← Draft.record "BindingConfig" fields d
  return {
    certificatePath := ← slots.orElse "certificate_path" certificate none
    defaultHash := ← slots.orElse "default_algorithm" (Draft.variant hashes) .sha384
    verifyChain := ← slots.orElse "verify_chain" Draft.bool true
    profile := ← slots.orElse "profile" (Draft.variant profiles) .development
    batchConcurrency := ← slots.orElse "batch_concurrency" (Draft.natural "usize") 8 }

def ofText (text : String) : Except ReadError BindingConfig := Draft.readText ofDraft text

def hashName : Hash → String
  | .sha384 => "Sha384"
  | .sha512 => "Sha512"

def toJson (c : BindingConfig) : Json :=
  .object [("certificate_path", PathOverrides.pathOrNull c.certificatePath),
    ("default_algorithm", .string (hashName c.defaultHash)), ("verify_chain", .bool c.verifyChain),
    ("profile", .string c.profile.name),
    ("batch_concurrency", TrustConfig.natural (UInt64.ofNat c.batchConcurrency))]

/-- A certificate or a secret is configured. -/
def hasMechanism (c : BindingConfig) : Bool := c.certificatePath.isSome || c.secret.isSome

/-- At least one worker. -/
def withConcurrency (c : BindingConfig) (limit : Nat) : BindingConfig := { c with batchConcurrency := max 1 limit }

end BindingConfig

end PolicySeal
