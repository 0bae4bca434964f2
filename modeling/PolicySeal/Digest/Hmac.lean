import PolicySeal.Digest.Sha2
import PolicySeal.Scheme
/-
  PolicySeal.Digest.Hmac — keyed hashes (RFC 2104) over the hashes of signatures.
-/

namespace PolicySeal

/-- The digest of a message under one of the hashes of signatures. -/
def Hash.digest : Hash → Bytes → Bytes
  | .sha384 => Digest.sha384
  | .sha512 => Digest.sha512

namespace Digest

def hmacBlock : Nat := 128

/-- The key filled up to a block; a longer key is hashed first. -/
def hmacKey (h : Hash) (key : Bytes) : Bytes :=
  let key := if hmacBlock < key.length then h.digest key else key
  key ++ List.replicate (hmacBlock - key.length) 0

def hmac (h : Hash) (key message : Bytes) : Bytes :=
  let k := hmacKey h key
  h.digest (k.map (· ^^^ 0x5c) ++ h.digest (k.map (· ^^^ 0x36) ++ message))

end Digest

end PolicySeal
