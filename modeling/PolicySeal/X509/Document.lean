import PolicySeal.Certificate.Info
import PolicySeal.Digest.Sha2
import PolicySeal.X509.KeyInfo
import PolicySeal.X509.NameText
/-
  PolicySeal.X509.Document — certificates as they are encoded (RFC 5280).

  A document is what the issuer states, the algorithm of its signature and the signature. Parts
  that have their default value are not written: version 1, an extension that is not critical.
  They are read all the same, and what is read is written without them.
-/

namespace PolicySeal.X509

open Der

structure Validity where
  notBefore : Timestamp
  notAfter : Timestamp
  deriving DecidableEq

structure Extension where
  oid : Oid
  critical : Bool
  value : Bytes
  deriving DecidableEq

/-- What the issuer of a certificate signs. -/
structure Statement where
  /-- Counted from zero. -/
  version : Nat
  /-- An integer in two's complement. -/
  serial : Bytes
  algorithm : AlgorithmId
  issuer : Name
  validity : Validity
  subject : Name
  key : KeyInfo
  issuerId : Option BitString
  subjectId : Option BitString
  extensions : Option (List Extension)
  deriving DecidableEq

structure Document where
  statement : Statement
  algorithm : AlgorithmId
  signature : BitString
  deriving DecidableEq

/-! ## Encoding -/

def Validity.toElement (v : Validity) : Element := sequence [v.notBefore.toElement, v.notAfter.toElement]

def Extension.toElement (x : Extension) : Element :=
  sequence (x.oid.toElement :: (if x.critical then [boolean true] else []) ++ [octets x.value])

namespace Statement

/-- A field that replaces the tag of a bit string. -/
def idField (n : Nat) (id : Option BitString) : List Element :=
  match id with
  | some bits => [⟨Tag.implicitField n, bits.content⟩]
  | none => []

def versionField (version : Nat) : List Element :=
  if version = 0 then [] else [wrap (Tag.explicitField 0) [natural version]]

def extensionsField : Option (List Extension) → List Element
  | some xs => [wrap (Tag.explicitField 3) [sequence (xs.map Extension.toElement)]]
  | none => []

def toElement (s : Statement) : Element :=
  sequence (versionField s.version
    ++ [⟨Tag.integer, s.serial⟩, s.algorithm.toElement, s.issuer.toElement, s.validity.toElement, s.subject.toElement,
      s.key.toElement]
    ++ idField 1 s.issuerId ++ idField 2 s.subjectId ++ extensionsField s.extensions)

end Statement

def Document.toElement (d : Document) : Element :=
  sequence [d.statement.toElement, d.algorithm.toElement, d.signature.toElement]

def Document.encode (d : Document) : Bytes := d.toElement.encode

/-! ## Decoding -/

def Validity.ofElement? (e : Element) : Option Validity := do
  match ← e.inside? Tag.sequence with
  | [notBefore, notAfter] => return ⟨← Timestamp.ofElement? notBefore, ← Timestamp.ofElement? notAfter⟩
  | _ => none

def Extension.ofElement? (e : Element) : Option Extension := do
  match ← e.inside? Tag.sequence with
  | [oid, value] => return ⟨← Oid.ofElement? oid, false, ← value.tagged? Tag.octetString⟩
  | [oid, critical, value] => return ⟨← Oid.ofElement? oid, ← boolean? critical, ← value.tagged? Tag.octetString⟩
  | _ => none

namespace Statement

def maxVersion : Nat := 2
def maxSerialLength : Nat := 21

def version? : Option Element → Option Nat
  | none => some 0
  | some e => do (natural? (← e.explicit? 0)).filter (· ≤ maxVersion)

def id? (n : Nat) : Option Element → Option (Option BitString)
  | none => some none
  | some e => do return some (← BitString.ofContent? (← e.tagged? (Tag.implicitField n)))

def extensions? : Option Element → Option (Option (List Extension))
  | none => some none
  | some e => do return some (← (← (← e.explicit? 3).inside? Tag.sequence).mapM Extension.ofElement?)

def ofElement? (e : Element) : Option Statement := do
  let (version, fields) := takeField 0 (← e.inside? Tag.sequence)
  match fields with
  | serial :: algorithm :: issuer :: validity :: subject :: key :: fields =>
    let (issuerId, fields) := takeField 1 fields
    let (subjectId, fields) := takeField 2 fields
    let (extensions, fields) := takeField 3 fields
    if !fields.isEmpty then none
    return {
      version := ← version? version
      serial := ← (integerBytes? serial).filter (·.length ≤ maxSerialLength)
      algorithm := ← AlgorithmId.ofElement? algorithm
      issuer := ← Name.ofElement? issuer
      validity := ← Validity.ofElement? validity
      subject := ← Name.ofElement? subject
      key := ← KeyInfo.ofElement? key
      issuerId := ← id? 1 issuerId
      subjectId := ← id? 2 subjectId
      extensions := ← extensions? extensions }
  | _ => none

end Statement

def Document.ofElement? (e : Element) : Option Document := do
  match ← e.inside? Tag.sequence with
  | [statement, algorithm, signature] =>
    return ⟨← Statement.ofElement? statement, ← AlgorithmId.ofElement? algorithm, ← BitString.ofElement? signature⟩
  | _ => none

/-- The document that some bytes are; no more bytes than `maxLength` are looked at. -/
def Document.decode? (bs : Bytes) : Option Document :=
  if maxLength < bs.length then none else (Element.one? bs).bind Document.ofElement?

/-! ## Key usage -/

def keyUsageOid : Oid := .ofArcs [2, 5, 29, 15]

def maxUsageBytes : Nat := 2

/-- The uses that a key usage extension lists, in the order of their bits. -/
def usages? (value : Bytes) : Option (List KeyUsage) := do
  let bits ← BitString.ofElement? (← Element.one? value)
  if maxUsageBytes < bits.bytes.length then none
  return (KeyUsage.all.zipIdx.filter fun u => bits.bit u.2).map (·.1)

/-- The uses of the first key usage extension. -/
def Statement.usages? (s : Statement) : Option (List KeyUsage) :=
  match (s.extensions.getD []).find? (·.oid == keyUsageOid) with
  | some x => X509.usages? x.value
  | none => some []

end PolicySeal.X509
