import PolicySeal.Fault
import PolicySeal.Pem
import PolicySeal.X509.KeyInfo
/-
  PolicySeal.Rsa.KeyText — private keys as PEM text.

  Two forms are read: `PRIVATE KEY`, where the algorithm is named around the numbers, and
  `RSA PRIVATE KEY`, which holds the numbers alone. Keys have two primes; the numbers that
  only make computing faster are not looked at. Encrypted keys are refused by their name.
-/

namespace PolicySeal.Rsa

open Der

namespace PrivateKey

/-- The numbers of a key with two primes. -/
def ofNumbers? (e : Element) : Option PrivateKey := do
  match ← (← e.inside? Tag.sequence).mapM natural? with
  | [0, modulus, exponent, secret, firstPrime, secondPrime, _, _, _] =>
    let k : PrivateKey := ⟨modulus, exponent, secret, firstPrime, secondPrime⟩
    if k.isSound then some k else none
  | _ => none

def isField (e : Element) : Bool :=
  match e.fieldNumber? with
  | some n => (e.explicit? n).isSome
  | none => false

/-- The public key among the fields after the numbers, if the form has one; other fields are passed
over. -/
def publicField? (fields : List Element) : Option (Option BitString) := do
  match takeField 1 fields with
  | (none, rest) => if rest.all isField then some none else none
  | (some e, rest) =>
    let bits ← (e.tagged? (Tag.implicitField 1)).bind BitString.ofContent?
    if bits.unused = 0 ∧ rest.all isField then some (some bits) else none

/-- Version 0 has no public key, version 1 has one. -/
def ofInfo? (e : Element) : Option PrivateKey := do
  match ← e.inside? Tag.sequence with
  | version :: algorithm :: content :: fields =>
    let version ← natural? version
    let hasKey := (← publicField? fields).isSome
    if 1 < version ∨ hasKey ≠ (version == 1) then none
    if (← X509.AlgorithmId.ofElement? algorithm) ≠ .rsa then none
    ofNumbers? (← Element.one? (← content.tagged? Tag.octetString))
  | _ => none

def infoLabel : String := "PRIVATE KEY"
def numbersLabel : String := "RSA PRIVATE KEY"
def encryptedMark : String := "ENCRYPTED PRIVATE KEY"

def ofDocument? (label : String) (read : Element → Option PrivateKey) (text : Bytes) : Option PrivateKey := do
  read (← Element.one? (← Pem.decode? label text))

def ofText (text : String) : Except Fault PrivateKey :=
  let text := Text.trim text
  if Text.occurs encryptedMark.toList text.toList then
    .error (.malformedKey "encrypted private keys are not supported")
  else
    let bytes := Text.utf8 text
    match ofDocument? infoLabel ofInfo? bytes with
    | some k => .ok k
    | none =>
      match ofDocument? numbersLabel ofNumbers? bytes with
      | some k => .ok k
      | none => .error (.malformedKey "not PKCS#8 (no such document) or PKCS#1 (no such document)")

/-! ## Writing -/

/-- The numbers with those that make computing faster. -/
def numbers (k : PrivateKey) : Element :=
  let p := k.firstPrime
  let q := k.secondPrime
  sequence ([0, k.modulus, k.exponent, k.secret, p, q, k.secret % (p - 1), k.secret % (q - 1), power p q (p - 2)].map
    natural)

def info (k : PrivateKey) : Element :=
  sequence [natural 0, X509.AlgorithmId.rsa.toElement, octets k.numbers.encode]

/-- The key as text, in the form that names its algorithm. -/
def text (k : PrivateKey) : String := Text.ofAscii (Pem.encode infoLabel k.info.encode)

end PrivateKey

end PolicySeal.Rsa
