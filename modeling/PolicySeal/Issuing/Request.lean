import PolicySeal.Certificate
import PolicySeal.Digest.Sha1
import PolicySeal.Trust.Chain
/-
  PolicySeal.Issuing.Request — issuing certificates for the three tiers of a hierarchy.

  A certificate states its tier in its extensions: authorities may sign certificates, the one
  in the middle none but the last ones, and the signing certificate may sign policies. The root
  is issued in its own name. Issuers sign with SHA-384. What is encoded is at most
  `Der.maxLength` bytes long, with its own tag and length.
-/

namespace PolicySeal

open Der Trust X509 Time

structure IssueRequest where
  tier : Tier
  subject : String
  /-- Not looked at for a root. -/
  issuer : String
  key : Rsa.PublicKey
  notBefore : Instant
  notAfter : Instant
  deriving DecidableEq

/-! ## Extensions -/

/-- The extensions of certificates. -/
def extensionOid (n : Nat) : Oid := .ofArcs [2, 5, 29, n]

/-- What a key is told by: the digest of its bits. -/
def KeyInfo.identifier (k : X509.KeyInfo) : Bytes := Digest.sha1 k.bits.bytes

def subjectKeyExtension (key : X509.KeyInfo) : Extension :=
  ⟨extensionOid 14, false, (octets (KeyInfo.identifier key)).encode⟩

def issuerKeyExtension (key : X509.KeyInfo) : Extension :=
  ⟨extensionOid 35, false, (sequence [⟨Tag.implicitField 0, KeyInfo.identifier key⟩]).encode⟩

/-- Whether the subject is an authority, and how many may follow it. -/
def authorityFields : Tier → List Element
  | .root => [boolean true]
  | .intermediate => [boolean true, natural 0]
  | .signing => []

def authorityExtension (tier : Tier) : Extension :=
  ⟨extensionOid 19, true, (sequence (authorityFields tier)).encode⟩

def tierUsages : Tier → List KeyUsage
  | .signing => [.digitalSignature, .nonRepudiation]
  | _ => [.keyCertSign, .crlSign]

def usageExtension (usages : List KeyUsage) : Extension :=
  ⟨keyUsageOid, true, (BitString.ofBits (KeyUsage.all.map usages.contains)).toElement.encode⟩

def extensionsFor (tier : Tier) (key issuerKey : X509.KeyInfo) : List Extension :=
  [subjectKeyExtension key] ++ (if tier = .root then [] else [issuerKeyExtension issuerKey])
    ++ [authorityExtension tier, usageExtension (tierUsages tier)]

/-! ## Issuing -/

/-- Sixteen bytes of chance as a serial number: positive, and without a zero in front. -/
def serialOf (random : Vector UInt8 16) : Bytes :=
  match random.toList with
  | b :: rest => ((b &&& 0x7F) ||| 1) :: rest
  | [] => []

def nameOf (text : String) : Except Fault Name :=
  match Name.ofText? text with
  | some n => .ok n
  | none => .error (.notIssued ("invalid distinguished name '" ++ text ++ "': malformed name"))

def dateOf (t : Instant) : Except Fault Timestamp :=
  (Timestamp.ofInstant t).mapError fun
    | .beforeEpoch => .notIssued ("validity time " ++ t.words ++ " precedes the epoch")
    | .afterLastYear => .notIssued ("invalid validity time " ++ t.words ++ ": year after 9999")

namespace IssueRequest

/-- What the issuer of the certificate is to sign. -/
def statement (r : IssueRequest) (issuerKey : Rsa.PublicKey) (random : Vector UInt8 16) :
    Except Fault Statement := do
  let subject ← nameOf r.subject
  let issuer ← if r.tier = .root then pure subject else nameOf r.issuer
  let notBefore ← dateOf r.notBefore
  let notAfter ← dateOf r.notAfter
  let key := KeyInfo.ofRsa r.key
  return {
    version := 2
    serial := serialOf random
    algorithm := .plain Digest.Kind.sha384.signatureOid
    issuer
    validity := ⟨notBefore, notAfter⟩
    subject
    key
    issuerId := none
    subjectId := none
    extensions := some (extensionsFor r.tier key (.ofRsa issuerKey)) }

/-- The certificate, signed with the issuer's key. -/
def issue (r : IssueRequest) (issuerKey : Rsa.PrivateKey) (random : Vector UInt8 16) : Except Fault Document := do
  let statement ← r.statement issuerKey.publicKey random
  let signed := statement.toElement.encode
  if Der.maxLength < signed.length then
    throw (.notIssued ("signing '" ++ r.subject ++ "' failed: the statement is too long"))
  match Rsa.sign? issuerKey .sha384 signed with
  | some signature => return ⟨statement, statement.algorithm, .ofBytes signature⟩
  | none => throw (.notIssued ("signing '" ++ r.subject ++ "' failed: the key does not fit the digest"))

/-- The text of the certificate. -/
def issueText (r : IssueRequest) (issuerKey : Rsa.PrivateKey) (random : Vector UInt8 16) : Except Fault String := do
  let document ← r.issue issuerKey random
  if Der.maxLength < document.encode.length then
    throw (.notIssued "PEM encoding failed: the certificate is too long")
  return Text.ofAscii (Certificate.pemBytes document)

end IssueRequest

end PolicySeal
