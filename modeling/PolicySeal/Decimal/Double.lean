/-
  PolicySeal.Decimal.Double — finite double-precision numbers, in exact arithmetic.

  The magnitudes a double can have are numbered from zero up in increasing order; that
  number is the `rank`. Rank `r` below `2 ^ 52` is the subnormal `r * 2 ^ -1074`; above,
  `r / 2 ^ 52` is the biased exponent and `r % 2 ^ 52` the fraction. There is one value of
  the type for each finite double, the two zeros included, and none for NaN or infinity.

  - `ofRatio?` rounds a quotient to the nearest double, a tie to the even rank;
  - `mul?` and `div` round the exact product and quotient;
  - `ofDigits?` scales a whole number by a power of ten, rounding at each step.
-/

namespace PolicySeal.Decimal

/-- One past the rank of the largest finite double. -/
def rankLimit : Nat := 2047 * Nat.pow 2 52

structure Double where
  negative : Bool
  rank : Nat
  rank_lt : rank < rankLimit
  deriving DecidableEq

/-- The nearest whole number to `a / b`; a half goes to the even neighbour. -/
def roundHalfEven (a b : Nat) : Nat :=
  let q := a / b
  let r := a % b
  if 2 * r < b then q else if b < 2 * r then q + 1 else q + q % 2

namespace Double

def zero (negative : Bool) : Double := ⟨negative, 0, by decide⟩

def isZero (d : Double) : Bool := d.rank == 0

/-- The significand `m` and the shift `e` of the magnitude `m * 2 ^ e / 2 ^ 1074`. -/
def parts (d : Double) : Nat × Nat :=
  let e := d.rank / Nat.pow 2 52
  let f := d.rank % Nat.pow 2 52
  if e = 0 then (f, 0) else (Nat.pow 2 52 + f, e - 1)

/-- The magnitude in units of `2 ^ -1074`. -/
def units (d : Double) : Nat := d.parts.1 * Nat.pow 2 d.parts.2

/-- The rank nearest to `num / den`. Where the quotient has more than 53 bits the grid is
`2 ^ shift` units wide, and rounding up to the next power of two carries into the exponent. -/
def nearestRank (num den : Nat) : Nat :=
  let scaled := num * Nat.pow 2 1074
  let shift := (scaled / den).log2 - 52
  shift * Nat.pow 2 52 + roundHalfEven scaled (den * Nat.pow 2 shift)

/-- The double nearest to `num / den`; none where that would be infinite. -/
def ofRatio? (negative : Bool) (num den : Nat) : Option Double :=
  if h : nearestRank num den < rankLimit then some ⟨negative, nearestRank num den, h⟩ else none

def mul? (a b : Double) : Option Double :=
  ofRatio? (a.negative != b.negative) (a.units * b.units) (Nat.pow 2 1074 * Nat.pow 2 1074)

/-- The quotient; a quotient too large to represent does not arise from divisors of at least one,
and is read as zero. -/
def div (a b : Double) : Double :=
  (ofRatio? (a.negative != b.negative) a.units b.units).getD (zero false)

/-- The largest power of ten that a double can hold. -/
def maxPower : Nat := 308

/-- The double nearest to `10 ^ k`. -/
def powerOfTen (k : Nat) : Double := (ofRatio? false (Nat.pow 10 k) 1).getD (zero false)

/-- Divides by `10 ^ k`, by at most `10 ^ 308` at a time. -/
def shrink (d : Double) (k : Nat) : Double :=
  if k ≤ maxPower then d.div (powerOfTen k)
  else if d.isZero then d
  else shrink (d.div (powerOfTen maxPower)) (k - maxPower)
  termination_by k
  decreasing_by simp only [maxPower] at *; omega

/-- The double read for `significand * 10 ^ exponent`: the significand is rounded first, then its
product or quotient with the rounded power. None where it would be infinite. -/
def ofDigits? (significand : Nat) (exponent : Int) : Option Double := do
  let d ← ofRatio? false significand 1
  match exponent with
  | .ofNat k => if k ≤ maxPower then d.mul? (powerOfTen k) else if d.isZero then some d else none
  | .negSucc k => some (d.shrink (k + 1))

def withSign (negative : Bool) (d : Double) : Double := { d with negative }

/-- Equality of the numbers: the two zeros are equal. -/
def same (a b : Double) : Bool := a == b || (a.isZero && b.isZero)

end Double

end PolicySeal.Decimal
