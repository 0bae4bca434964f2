import PolicySeal.Issuing.Request
import PolicySeal.Rsa.KeyText
import PolicySeal.Text.Quoted
import PolicySeal.Trust.Paths
/-
  PolicySeal.Issuing.Hierarchy — hierarchies for development: three certificates with keys.

  The root is issued by itself, the intermediate one by the root and the signing certificate by
  the intermediate one. All are valid from a minute before the time of issuing, so that hosts
  whose clocks lag accept them at once.
-/

namespace PolicySeal

open Trust Time

structure IssuedIdentity where
  subject : String
  certificate : String
  privateKey : String
  deriving DecidableEq

/-- What may be shown of an identity. -/
def IssuedIdentity.redacted (i : IssuedIdentity) : String :=
  "IssuedIdentity \x7b subject: " ++ Text.quote i.subject ++ ", private_key_pem: \"<redacted>\", .. \x7d"

structure IssuedHierarchy where
  root : IssuedIdentity
  intermediate : IssuedIdentity
  signing : IssuedIdentity
  deriving DecidableEq

namespace IssuedHierarchy

def bundled (text : String) : String := Text.trimEnd text ++ "\n"

/-- The certificates from the signing one up, each ending its own line. -/
def chainText (h : IssuedHierarchy) : String :=
  bundled h.signing.certificate ++ bundled h.intermediate.certificate ++ bundled h.root.certificate

end IssuedHierarchy

/-- A file that is to be written; a private one only its owner may read. -/
structure OutputFile where
  path : Path
  content : String
  isPrivate : Bool
  deriving DecidableEq

/-- The files of a hierarchy, in the order they are written. -/
def IssuedHierarchy.files (h : IssuedHierarchy) (paths : TrustPaths) : List OutputFile :=
  [⟨paths.rootCert, h.root.certificate, false⟩, ⟨paths.rootKey, h.root.privateKey, true⟩,
    ⟨paths.intermediateCert, h.intermediate.certificate, false⟩,
    ⟨paths.intermediateKey, h.intermediate.privateKey, true⟩,
    ⟨paths.signingCert, h.signing.certificate, false⟩, ⟨paths.signingKey, h.signing.privateKey, true⟩,
    ⟨paths.chain, h.chainText, false⟩]

/-! ## Issuing all three -/

structure HierarchyOptions where
  organization : String := "DIVE V3"
  country : String := "US"
  keyBits : Nat := 3072
  rootDays : Int := 3650
  intermediateDays : Int := 1825
  signingDays : Int := 365
  deriving DecidableEq

/-- Why there is no hierarchy. -/
inductive HierarchyError where
  | outsideCalendar
  | fault (f : Fault)
  deriving DecidableEq

def inCalendar {α : Type} : Option α → Except HierarchyError α
  | some a => .ok a
  | none => .error .outsideCalendar

namespace HierarchyOptions

def minKeyBits : Nat := 2048

def checkKeyBits (bits : Nat) : Except Fault Unit :=
  if bits < minKeyBits then
    .error (.misconfigured ("RSA key size " ++ toString bits ++ " is below the 2048-bit minimum"))
  else .ok ()

def nameFor (o : HierarchyOptions) (role : String) : String :=
  "CN=" ++ o.organization ++ " " ++ role ++ ",O=" ++ o.organization ++ ",C=" ++ o.country

/-- When the certificates start to be valid, and a check of what does not need keys. -/
def prepare (o : HierarchyOptions) (now : Instant) : Except HierarchyError Instant := do
  let notBefore ← inCalendar (now.sub? (.ofMinutes 1))
  (checkKeyBits o.keyBits).mapError .fault
  return notBefore

end HierarchyOptions

/-- A key, and the chance for the serial number of its certificate. -/
structure KeyMaterial where
  key : Rsa.PrivateKey
  random : Vector UInt8 16

namespace HierarchyOptions

/-- The tiers' names, and how long their certificates are valid. -/
def nameOf (o : HierarchyOptions) : Tier → String
  | .root => o.nameFor "Root CA"
  | .intermediate => o.nameFor "Intermediate CA"
  | .signing => o.nameFor "Policy Signer"

def daysOf (o : HierarchyOptions) : Tier → Int
  | .root => o.rootDays
  | .intermediate => o.intermediateDays
  | .signing => o.signingDays

/-- Issues the certificate of a tier, below the one with the issuer's tier and key. -/
def identity (o : HierarchyOptions) (tier : Tier) (m : KeyMaterial) (above : Tier) (issuerKey : Rsa.PrivateKey)
    (notBefore now : Instant) : Except HierarchyError IssuedIdentity := do
  let notAfter ← inCalendar (now.add? (.ofDays (o.daysOf tier)))
  let request : IssueRequest :=
    { tier, subject := o.nameOf tier, issuer := o.nameOf above, key := m.key.publicKey, notBefore, notAfter }
  let certificate ← (request.issueText issuerKey m.random).mapError .fault
  return { subject := o.nameOf tier, certificate, privateKey := m.key.text }

def generate (o : HierarchyOptions) (now : Instant) (root intermediate signing : KeyMaterial) :
    Except HierarchyError IssuedHierarchy := do
  let notBefore ← o.prepare now
  return {
    root := ← o.identity .root root .root root.key notBefore now
    intermediate := ← o.identity .intermediate intermediate .root root.key notBefore now
    signing := ← o.identity .signing signing .intermediate intermediate.key notBefore now }

end HierarchyOptions

end PolicySeal
