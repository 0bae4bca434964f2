import PolicySeal.Json.Shape
/-
  PolicySeal.Certificate.Info — what is told of a certificate: names, serial number, dates,
  uses and fingerprint. It is written as JSON, and read back from it.
-/

namespace PolicySeal

open Json

inductive KeyUsage where
  | digitalSignature
  | nonRepudiation
  | keyEncipherment
  | dataEncipherment
  | keyAgreement
  | keyCertSign
  | crlSign
  | encipherOnly
  | decipherOnly
  deriving DecidableEq

/-- The uses in the order of their bits. -/
def KeyUsage.all : List KeyUsage :=
  [.digitalSignature, .nonRepudiation, .keyEncipherment, .dataEncipherment, .keyAgreement, .keyCertSign, .crlSign,
    .encipherOnly, .decipherOnly]

def KeyUsage.name : KeyUsage → String
  | digitalSignature => "digitalSignature"
  | nonRepudiation => "nonRepudiation"
  | keyEncipherment => "keyEncipherment"
  | dataEncipherment => "dataEncipherment"
  | keyAgreement => "keyAgreement"
  | keyCertSign => "keyCertSign"
  | crlSign => "cRLSign"
  | encipherOnly => "encipherOnly"
  | decipherOnly => "decipherOnly"

structure CertificateInfo where
  subject : String
  issuer : String
  serialNumber : String
  validFrom : Time.Reading
  validTo : Time.Reading
  keyUsage : List KeyUsage
  fingerprint : String
  deriving DecidableEq

namespace CertificateInfo

def toJson (i : CertificateInfo) : Json :=
  .object [("subject", .string i.subject), ("issuer", .string i.issuer), ("serialNumber", .string i.serialNumber),
    ("validFrom", .string i.validFrom.text), ("validTo", .string i.validTo.text),
    ("keyUsage", strings (i.keyUsage.map KeyUsage.name)), ("fingerprintSha256", .string i.fingerprint)]

def uses : List (String × KeyUsage) := KeyUsage.all.map fun u => (u.name, u)

def keyUsages : Draft.Reader (List KeyUsage) := Draft.list (Draft.variant uses)

def fields : List Draft.Field :=
  [.of "subject" Draft.string false, .of "issuer" Draft.string false, .of "serialNumber" Draft.string false,
    .of "validFrom" Draft.time false, .of "validTo" Draft.time false, .of "keyUsage" keyUsages false,
    .of "fingerprintSha256" Draft.string false]

def ofDraft : Draft.Reader CertificateInfo := fun d => do
  let slots ← Draft.record "CertificateInfo" fields d
  return {
    subject := ← slots.required "subject" Draft.string
    issuer := ← slots.required "issuer" Draft.string
    serialNumber := ← slots.required "serialNumber" Draft.string
    validFrom := ← slots.required "validFrom" Draft.time
    validTo := ← slots.required "validTo" Draft.time
    keyUsage := ← slots.required "keyUsage" keyUsages
    fingerprint := ← slots.required "fingerprintSha256" Draft.string }

end CertificateInfo

end PolicySeal
