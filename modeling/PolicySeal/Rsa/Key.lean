import PolicySeal.Bytes
/-
  PolicySeal.Rsa.Key — RSA keys as numbers, and the power that both halves compute.

  A public key is sound when a modulus and an exponent of its kind can belong together. A
  private key is sound when its public half is, its primes give the modulus, and its exponent
  undoes the public one for each of them.
-/

namespace PolicySeal.Rsa

/-- Squares and multiplies: `result * base ^ exponent` modulo `m`, for an exponent of at most `fuel`
bits. -/
def powerWithin (m : Nat) : Nat → Nat → Nat → Nat → Nat
  | 0, result, _, _ => result
  | fuel + 1, result, base, exponent =>
    let result := if exponent % 2 = 1 then result * base % m else result
    powerWithin m fuel result (base * base % m) (exponent / 2)

/-- `base ^ exponent` modulo `m`. -/
def power (m base exponent : Nat) : Nat := powerWithin m (exponent.log2 + 1) (1 % m) (base % m) exponent

structure PublicKey where
  modulus : Nat
  exponent : Nat
  deriving DecidableEq

namespace PublicKey

def bits (k : PublicKey) : Nat := if k.modulus = 0 then 0 else k.modulus.log2 + 1

/-- The length of the modulus in bytes. -/
def size (k : PublicKey) : Nat := Bytes.width k.modulus

def maxExponent : Nat := 0x1FFFFFFFF

def isSound (k : PublicKey) : Bool :=
  k.modulus % 2 = 1 && k.exponent % 2 = 1 && 3 ≤ k.exponent && k.exponent ≤ maxExponent && k.exponent < k.modulus

end PublicKey

structure PrivateKey where
  modulus : Nat
  exponent : Nat
  secret : Nat
  firstPrime : Nat
  secondPrime : Nat
  deriving DecidableEq

namespace PrivateKey

def publicKey (k : PrivateKey) : PublicKey := ⟨k.modulus, k.exponent⟩

/-- The two exponents undo each other modulo the prime. -/
def isInverse (k : PrivateKey) (prime : Nat) : Bool := 1 < prime && k.exponent * k.secret % (prime - 1) == 1

def isSound (k : PrivateKey) : Bool :=
  k.publicKey.isSound && k.firstPrime * k.secondPrime == k.modulus && k.isInverse k.firstPrime
    && k.isInverse k.secondPrime

end PrivateKey

end PolicySeal.Rsa
