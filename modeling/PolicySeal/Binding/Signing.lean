import PolicySeal.Base64
import PolicySeal.Policy.Canonical
import PolicySeal.Rsa.Signature
import PolicySeal.Secret
import PolicySeal.Time.Written
/-
  PolicySeal.Binding.Signing — signatures over the canonical bytes of a policy.

  A signature is made with a private key or with a shared secret, and attached in a block that
  names its scheme. Whatever block the policy has before plays no part.
-/

namespace PolicySeal.Policy

/-! ## RSA -/

def rsaSignature (p : Policy) (key : Rsa.PrivateKey) (h : Hash) : Except Fault String :=
  match Rsa.sign? key (.ofHash h) p.signedBytes with
  | some s => .ok (Base64.encode s)
  | none => .error (.notSigned "RSA signing failed: the key does not fit the digest")

def matchesKey (p : Policy) (key : Rsa.PublicKey) (h : Hash) (signature : Bytes) : Bool :=
  Rsa.verify key (.ofHash h) p.signedBytes signature

/-! ## Shared secrets -/

def tag (p : Policy) (secret : Secret) (h : Hash) : Bytes := Digest.hmac h secret.bytes p.signedBytes

def hmacSignature (p : Policy) (secret : Secret) (h : Hash) : Except Fault String :=
  if secret.isEmpty then .error (.misconfigured "HMAC secret is empty") else .ok (Base64.encode (p.tag secret h))

/-- The whole tag has to match. -/
def matchesSecret (p : Policy) (secret : Secret) (h : Hash) (signature : Bytes) : Bool := p.tag secret h == signature

/-! ## Attaching -/

def attach (p : Policy) (scheme : Scheme) (value signerId : String) (at_ : Time.Instant) : Policy :=
  p.withSignature { algorithm := scheme.name, value, signerId, timestamp := at_.stamp }

def signedWithSecret (p : Policy) (secret : Secret) (h : Hash) (signerId : String) (at_ : Time.Instant) :
    Except Fault Policy := do
  return p.attach (.hmac h) (← p.hmacSignature secret h) signerId at_

end PolicySeal.Policy
