import PolicySeal.Fault
import PolicySeal.Pem
import PolicySeal.Rsa.Signature
import PolicySeal.X509.Document
/-
  PolicySeal.Certificate — certificates that have been accepted: encoded as they should be,
  with an RSA key and a key usage that can be read.

  - `ofText`, `ofBytes` read them, `text` and `encode` write them;
  - `issuance` says whether one certificate was signed with the key of another.
-/

namespace PolicySeal

open X509

structure Certificate where
  document : Document
  key : Rsa.PublicKey
  usages : List KeyUsage
  deriving DecidableEq

namespace Certificate

def subject (c : Certificate) : String := c.document.statement.subject.text

def issuer (c : Certificate) : String := c.document.statement.issuer.text

/-- Two digits a byte, with colons between. -/
def serialNumber (c : Certificate) : String :=
  ":".intercalate (c.document.statement.serial.map fun b => Bytes.hex [b])

def validFrom (c : Certificate) : Time.Instant := c.document.statement.validity.notBefore.instant

def validTo (c : Certificate) : Time.Instant := c.document.statement.validity.notAfter.instant

def encode (c : Certificate) : Bytes := c.document.encode

def fingerprint (c : Certificate) : String := Bytes.hex (Digest.sha256 c.encode)

def hasUsage (c : Certificate) (u : KeyUsage) : Bool := c.usages.contains u

/-- Within its dates, both included. -/
def isValidAt (c : Certificate) (now : Time.Instant) : Bool := c.validFrom ≤ now && now ≤ c.validTo

def info (c : Certificate) : CertificateInfo :=
  { subject := c.subject
    issuer := c.issuer
    serialNumber := c.serialNumber
    validFrom := c.validFrom.reading
    validTo := c.validTo.reading
    keyUsage := c.usages
    fingerprint := c.fingerprint }

/-! ## Text -/

def label : String := "CERTIFICATE"

def pemBytes (d : Document) : Bytes := Pem.encode label d.encode

def text (c : Certificate) : String := Text.ofAscii (pemBytes c.document)

/-- The path that messages name for a certificate that came without one. -/
def inlineOrigin : Path := ⟨"<inline>"⟩

/-- Accepts a document with an RSA key and a readable key usage. -/
def ofDocument (origin : Path) (d : Document) : Except Fault Certificate := do
  let key ← (d.statement.key.rsa?).mapError fun reason =>
    .unsupportedKey ("subject key algorithm " ++ d.statement.key.algorithm.oid.text ++ " is not RSA: " ++ reason)
  match d.statement.usages? with
  | none => throw (.malformedCertificate origin "invalid keyUsage extension: malformed bit string")
  | some usages => return { document := d, key, usages }

/-- The documents of a text, each up to its end line. -/
def documents? (text : Bytes) : Option (List Document) := do
  (← Pem.splitAfter label text).mapM fun piece => do Document.decode? (← Pem.decode? label piece)

/-- Reads the first certificate of a text, of which every piece has to be one. -/
def ofTextAt (origin : Path) (text : String) : Except Fault Certificate :=
  match documents? (Text.utf8 (Text.trim text)) with
  | none => .error (.malformedCertificate origin "invalid PEM/DER: malformed document")
  | some [] => .error (.malformedCertificate origin "no CERTIFICATE block found")
  | some (d :: _) => ofDocument origin d

def ofText (text : String) : Except Fault Certificate := ofTextAt inlineOrigin text

def ofBytes (bs : Bytes) : Except Fault Certificate :=
  match Document.decode? bs with
  | none => .error (.malformedCertificate inlineOrigin "invalid DER: malformed document")
  | some d => ofDocument inlineOrigin d

/-! ## Issuance -/

/-- Why a certificate does not count as issued by another. -/
inductive NotIssuedBy where
  | algorithm (oid : Der.Oid)
  | notAligned
  | mismatch (subject issuer : String)
  deriving DecidableEq

def NotIssuedBy.message : NotIssuedBy → String
  | algorithm oid => "unsupported certificate signature algorithm " ++ oid.text
  | notAligned => "signature bit string is not octet aligned"
  | mismatch subject issuer => "signature of '" ++ subject ++ "' does not verify under key of '" ++ issuer ++ "'"

/-- Whether the signature of a certificate verifies under the key of the other one. -/
def issuance (c issuer : Certificate) : Except NotIssuedBy Unit :=
  match Digest.Kind.ofSignatureOid? c.document.algorithm.oid with
  | none => .error (.algorithm c.document.algorithm.oid)
  | some h =>
    match c.document.signature.octets? with
    | none => .error .notAligned
    | some signature =>
      if Rsa.verify issuer.key h c.document.statement.toElement.encode signature then .ok ()
      else .error (.mismatch c.subject issuer.subject)

end Certificate

end PolicySeal
