import PolicySeal.Rsa.Key
/-
  PolicySeal.Rsa.Generation — new RSA keys from random numbers.

  A prime is looked for among the odd numbers from a random one upwards, and counts as one when
  it passes the strong test for every base of a fixed list. The two highest bits of both primes
  are set, so that their product has the length that was asked for. The secret exponent undoes
  the public one modulo the product of the primes, each less one.
-/

namespace PolicySeal.Rsa

/-! ## Primes -/

/-- How often two divides a number, up to `fuel` times, and what is left. -/
def withoutTwos : Nat → Nat → Nat × Nat
  | 0, n => (0, n)
  | fuel + 1, n =>
    if n % 2 = 0 then
      let (twos, odd) := withoutTwos fuel (n / 2)
      (twos + 1, odd)
    else (0, n)

/-- Whether `target` comes up when `x` is squared modulo `n` at most `fuel` times. -/
def squaresReach (n target : Nat) : Nat → Nat → Bool
  | 0, x => x == target
  | fuel + 1, x => x == target || squaresReach n target fuel (x * x % n)

/-- The strong test of an odd number for one base. -/
def passesFor (n base : Nat) : Bool :=
  let (twos, odd) := withoutTwos n.log2 (n - 1)
  let x := power n base odd
  x == 1 || squaresReach n (n - 1) (twos - 1) x

def bases : List Nat :=
  [2, 3, 5, 7, 11, 13, 17, 19, 23, 29, 31, 37, 41, 43, 47, 53, 59, 61, 67, 71, 73, 79, 83, 89, 97, 101, 103, 107, 109,
    113, 127, 131, 137, 139, 149, 151, 157, 163, 167, 173]

/-- Whether a number above the bases is prime, as far as the test can tell. -/
def isLikelyPrime (n : Nat) : Bool := bases.all (fun b => n % b != 0) && bases.all (passesFor n)

/-- A number of `bits` bits from a random one: odd, and with the two highest bits set. -/
def shaped (bits random : Nat) : Nat := 3 * Nat.pow 2 (bits - 2) + random % Nat.pow 2 (bits - 2) / 2 * 2 + 1

/-- The first prime among `fuel` odd numbers whose predecessor has no factor in common with the public
exponent. -/
def primeFrom? (exponent : Nat) : Nat → Nat → Option Nat
  | 0, _ => none
  | fuel + 1, n =>
    if isLikelyPrime n && (n - 1).gcd exponent == 1 then some n else primeFrom? exponent fuel (n + 2)

/-! ## Exponents -/

/-- Euclid's algorithm on remainders `r` and `s`, where `r` is `t * a` and `s` is `u * a` modulo `m`:
the inverse of `a`, if the last remainder is one. -/
def inverseWithin (m : Nat) : Nat → Nat → Nat → Int → Int → Option Nat
  | 0, _, _, _, _ => none
  | fuel + 1, r, s, t, u =>
    if s = 0 then if r = 1 then some (t % m).toNat else none
    else inverseWithin m fuel s (r % s) u (t - r / s * u)

/-- The inverse of `a` modulo `m`. -/
def inverse? (m a : Nat) : Option Nat := inverseWithin m (2 * m.log2 + 4) m (a % m) 0 1

/-! ## Keys -/

def standardExponent : Nat := 65537

def PrivateKey.ofPrimes? (p q : Nat) : Option PrivateKey := do
  if p = q then none
  let secret ← inverse? ((p - 1) * (q - 1)) standardExponent
  let k : PrivateKey := ⟨p * q, standardExponent, secret, p, q⟩
  if k.isSound then some k else none

/-- A key of `bits` bits from two random numbers. -/
def PrivateKey.ofRandom? (bits first second : Nat) : Option PrivateKey := do
  let high := (bits + 1) / 2
  let low := bits - high
  let p ← primeFrom? standardExponent (100 * bits) (shaped high first)
  let q ← primeFrom? standardExponent (100 * bits) (shaped low second)
  PrivateKey.ofPrimes? p q

end PolicySeal.Rsa
