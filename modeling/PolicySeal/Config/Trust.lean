import PolicySeal.Config.Environment
import PolicySeal.Json.Shape
import PolicySeal.Path
/-
  PolicySeal.Config.Trust — where a node's certificates and keys are, and how they are kept.

  The configuration comes from the environment, or from JSON text, where every field has a
  default. Times to live and tolerances are 64-bit counts of milliseconds; as spans they are
  cut off at the largest signed one.
-/

namespace PolicySeal

open Json

/-- Locations that are set file by file. -/
structure PathOverrides where
  rootCert : Option Path := none
  rootKey : Option Path := none
  intermediateCert : Option Path := none
  intermediateKey : Option Path := none
  signingCert : Option Path := none
  signingKey : Option Path := none
  chain : Option Path := none
  deriving DecidableEq

structure TrustConfig where
  pkiDir : Path := ⟨"certs"⟩
  instancesDir : Path := ⟨"instances"⟩
  /-- The code of this node; without one it is the hub. -/
  instanceCode : Option String := none
  hubInstanceCode : String := "USA"
  overrides : PathOverrides := {}
  cacheTtl : UInt64 := 3600000
  skewTolerance : UInt64 := 300000
  deriving DecidableEq

/-- A count of milliseconds as a span. -/
def spanOfMillis (n : UInt64) : Time.Span := ⟨min n.toNat 0x7FFFFFFFFFFFFFFF⟩

namespace PathOverrides

def entries (o : PathOverrides) : List (String × Option Path) :=
  [("root_cert", o.rootCert), ("root_key", o.rootKey), ("intermediate_cert", o.intermediateCert),
    ("intermediate_key", o.intermediateKey), ("signing_cert", o.signingCert), ("signing_key", o.signingKey),
    ("chain", o.chain)]

def pathOrNull : Option Path → Json
  | some p => .string p.text
  | none => .null

def toJson (o : PathOverrides) : Json := .object (o.entries.map fun e => (e.1, pathOrNull e.2))

def reader : Draft.Reader (Option Path) := fun d => (Draft.optional Draft.path d).map (·.map Path.mk)

def fields : List Draft.Field :=
  ["root_cert", "root_key", "intermediate_cert", "intermediate_key", "signing_cert", "signing_key", "chain"].map
    fun name => .of name reader false

def ofDraft : Draft.Reader PathOverrides := fun d => do
  let slots ← Draft.record "PathOverrides" fields d
  let get (name : String) := slots.orElse name reader none
  return {
    rootCert := ← get "root_cert"
    rootKey := ← get "root_key"
    intermediateCert := ← get "intermediate_cert"
    intermediateKey := ← get "intermediate_key"
    signingCert := ← get "signing_cert"
    signingKey := ← get "signing_key"
    chain := ← get "chain" }

def samePath (a b : Option Path) : Bool :=
  match a, b with
  | some a, some b => a.same b
  | none, none => true
  | _, _ => false

end PathOverrides

namespace TrustConfig

def ttl (c : TrustConfig) : Time.Span := spanOfMillis c.cacheTtl

def skew (c : TrustConfig) : Time.Span := spanOfMillis c.skewTolerance

/-- The configuration that variables describe. -/
def ofEnvironment (env : Environment) : TrustConfig :=
  let path (name : String) : Option Path := (env.value? name).map Path.mk
  let standard : TrustConfig := {}
  { pkiDir := (path "PKI_DIR").getD standard.pkiDir
    instancesDir := (path "PKI_INSTANCES_DIR").getD standard.instancesDir
    instanceCode := (env.value? "INSTANCE_CODE").map Text.trim
    hubInstanceCode := ((env.value? "PKI_HUB_INSTANCE_CODE").map Text.trim).getD standard.hubInstanceCode
    overrides :=
      { rootCert := path "PKI_ROOT_CA_PATH"
        rootKey := path "PKI_ROOT_CA_KEY_PATH"
        intermediateCert := path "PKI_INTERMEDIATE_CA_PATH"
        intermediateKey := path "PKI_INTERMEDIATE_CA_KEY_PATH"
        signingCert := path "PKI_SIGNING_CERT_PATH"
        signingKey := path "PKI_SIGNING_KEY_PATH"
        chain := path "PKI_CHAIN_PATH" }
    cacheTtl := UInt64.ofNat (env.numberOr "PKI_CERTIFICATE_CACHE_TTL_MS" standard.cacheTtl.toNat)
    skewTolerance := UInt64.ofNat (env.numberOr "PKI_CLOCK_SKEW_TOLERANCE_MS" standard.skewTolerance.toNat) }

def path : Draft.Reader Path := fun d => (Draft.path d).map Path.mk

def millis : Draft.Reader UInt64 := fun d => (Draft.natural "u64" d).map UInt64.ofNat

def fields : List Draft.Field :=
  [.of "pki_dir" path true, .of "instances_dir" path true,
    .of "instance_code" (Draft.optional Draft.string) true, .of "hub_instance_code" Draft.string true,
    .of "overrides" PathOverrides.ofDraft true, .of "cache_ttl_ms" millis true,
    .of "clock_skew_tolerance_ms" millis true]

def ofDraft : Draft.Reader TrustConfig := fun d => do
  let slots ← Draft.record "PkiConfig" fields d
  let standard : TrustConfig := {}
  return {
    pkiDir := ← slots.orElse "pki_dir" path standard.pkiDir
    instancesDir := ← slots.orElse "instances_dir" path standard.instancesDir
    instanceCode := ← slots.orElse "instance_code" (Draft.optional Draft.string) none
    hubInstanceCode := ← slots.orElse "hub_instance_code" Draft.string standard.hubInstanceCode
    overrides := ← slots.orElse "overrides" PathOverrides.ofDraft {}
    cacheTtl := ← slots.orElse "cache_ttl_ms" millis standard.cacheTtl
    skewTolerance := ← slots.orElse "clock_skew_tolerance_ms" millis standard.skewTolerance }

def ofText (text : String) : Except ReadError TrustConfig := Draft.readText ofDraft text

def natural (n : UInt64) : Json :=
  .number (.whole n.toNat ⟨by omega, by have := n.toNat_lt; omega⟩)

def toJson (c : TrustConfig) : Json :=
  .object [("pki_dir", .string c.pkiDir.text), ("instances_dir", .string c.instancesDir.text),
    ("instance_code", match c.instanceCode with
      | some code => .string code
      | none => .null),
    ("hub_instance_code", .string c.hubInstanceCode), ("overrides", c.overrides.toJson),
    ("cache_ttl_ms", natural c.cacheTtl), ("clock_skew_tolerance_ms", natural c.skewTolerance)]

/-- Equality with paths compared by their parts. -/
def same (a b : TrustConfig) : Bool :=
  a.pkiDir.same b.pkiDir && a.instancesDir.same b.instancesDir && a.instanceCode == b.instanceCode
    && a.hubInstanceCode == b.hubInstanceCode && a.cacheTtl == b.cacheTtl && a.skewTolerance == b.skewTolerance
    && (a.overrides.entries.zip b.overrides.entries).all fun (x, y) => PathOverrides.samePath x.2 y.2

end TrustConfig

end PolicySeal
