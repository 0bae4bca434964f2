import PolicySeal.Der.Oid
import PolicySeal.Der.Primitive
import PolicySeal.Rsa.Key
/-
  PolicySeal.X509.KeyInfo — algorithms by identifier, and the public keys of subjects.

  A subject's key is an algorithm and a bit string. Only RSA keys are understood: the
  algorithm has a null parameter, and the bits are a modulus and an exponent.
-/

namespace PolicySeal.X509

open Der

structure AlgorithmId where
  oid : Oid
  parameters : Option Element
  deriving DecidableEq

namespace AlgorithmId

def toElement (a : AlgorithmId) : Element := sequence (a.oid.toElement :: a.parameters.toList)

def ofElement? (e : Element) : Option AlgorithmId := do
  match ← e.inside? Tag.sequence with
  | [oid] => return ⟨← Oid.ofElement? oid, none⟩
  | [oid, parameters] => return ⟨← Oid.ofElement? oid, some parameters⟩
  | _ => none

/-- An algorithm with a null parameter. -/
def plain (oid : Oid) : AlgorithmId := ⟨oid, some Der.null⟩

/-- The algorithms of the RSA family. -/
def rsaFamily (n : Nat) : Oid := .ofArcs [1, 2, 840, 113549, 1, 1, n]

def rsa : AlgorithmId := plain (rsaFamily 1)

end AlgorithmId

/-! ## Keys -/

structure KeyInfo where
  algorithm : AlgorithmId
  bits : BitString
  deriving DecidableEq

namespace KeyInfo

def toElement (k : KeyInfo) : Element := sequence [k.algorithm.toElement, k.bits.toElement]

def ofElement? (e : Element) : Option KeyInfo := do
  match ← e.inside? Tag.sequence with
  | [algorithm, bits] => return ⟨← AlgorithmId.ofElement? algorithm, ← BitString.ofElement? bits⟩
  | _ => none

def ofRsa (k : Rsa.PublicKey) : KeyInfo :=
  ⟨.rsa, .ofBytes (sequence [natural k.modulus, natural k.exponent]).encode⟩

/-- The largest modulus of a subject's key. -/
def maxBits : Nat := 4096

/-- The two numbers that a key's bits are. -/
def numbers? (bits : BitString) : Option Rsa.PublicKey := do
  match ← (← Element.one? (← bits.octets?)).inside? Tag.sequence with
  | [modulus, exponent] => return ⟨← natural? modulus, ← natural? exponent⟩
  | _ => none

/-- The RSA key, or why there is none. -/
def rsa? (k : KeyInfo) : Except String Rsa.PublicKey :=
  if k.algorithm ≠ .rsa then .error "unknown algorithm or parameters"
  else
    match numbers? k.bits with
    | none => .error "malformed key"
    | some key =>
      if maxBits < key.bits then .error "modulus too large"
      else if !key.isSound then .error "invalid modulus or exponent"
      else .ok key

end KeyInfo

end PolicySeal.X509
