import PolicySeal.Digest.Hmac
import PolicySeal.X509.KeyInfo
/-
  PolicySeal.Rsa.Signature — RSA signatures with the padding of PKCS #1 version 1.5.

  The block that is raised to a power is as long as the modulus: `00 01`, at least eight
  bytes `FF`, `00`, and the digest with the name of its hash. A signature verifies when its
  power under the public key is exactly that block.
-/

namespace PolicySeal

/-- The hashes of certificate signatures. -/
inductive Digest.Kind where
  | sha256
  | sha384
  | sha512
  deriving DecidableEq

namespace Digest.Kind

def ofHash : Hash → Kind
  | .sha384 => sha384
  | .sha512 => sha512

def digest : Kind → Bytes → Bytes
  | sha256 => Digest.sha256
  | sha384 => Digest.sha384
  | sha512 => Digest.sha512

/-- The identifier of the hash. -/
def oid : Kind → Der.Oid
  | sha256 => .ofArcs [2, 16, 840, 1, 101, 3, 4, 2, 1]
  | sha384 => .ofArcs [2, 16, 840, 1, 101, 3, 4, 2, 2]
  | sha512 => .ofArcs [2, 16, 840, 1, 101, 3, 4, 2, 3]

/-- The identifier of RSA signatures with the hash. -/
def signatureOid : Kind → Der.Oid
  | sha256 => X509.AlgorithmId.rsaFamily 11
  | sha384 => X509.AlgorithmId.rsaFamily 12
  | sha512 => X509.AlgorithmId.rsaFamily 13

def all : List Kind := [sha256, sha384, sha512]

/-- The hash of a signature algorithm. -/
def ofSignatureOid? (oid : Der.Oid) : Option Kind := all.find? (·.signatureOid == oid)

end Digest.Kind

namespace Rsa

open Der

/-- The digest of a message with the name of its hash. -/
def digestInfo (h : Digest.Kind) (message : Bytes) : Bytes :=
  (sequence [(X509.AlgorithmId.plain h.oid).toElement, octets (h.digest message)]).encode

/-- What surrounds the digest in a block: three bytes and the least padding. -/
def minOverhead : Nat := 11

/-- The block of `size` bytes, if the digest fits. -/
def block? (size : Nat) (h : Digest.Kind) (message : Bytes) : Option Bytes :=
  let info := digestInfo h message
  if size < info.length + minOverhead then none
  else some ([0, 1] ++ List.replicate (size - info.length - 3) 0xFF ++ [0] ++ info)

/-- Whether a signature is that of the message under the key. -/
def verify (k : PublicKey) (h : Digest.Kind) (message signature : Bytes) : Bool :=
  match block? k.size h message with
  | none => false
  | some block =>
    signature.length == k.size && Bytes.toNat signature < k.modulus
      && Bytes.ofNat k.size (power k.modulus (Bytes.toNat signature) k.exponent) == block

/-- The signature of a message; none where the modulus is too short for the block, or the key does not
undo its own power. -/
def sign? (k : PrivateKey) (h : Digest.Kind) (message : Bytes) : Option Bytes := do
  let size := k.publicKey.size
  let block ← block? size h message
  let s := power k.modulus (Bytes.toNat block) k.secret
  if power k.modulus s k.exponent = Bytes.toNat block then some (Bytes.ofNat size s) else none

end Rsa

end PolicySeal
