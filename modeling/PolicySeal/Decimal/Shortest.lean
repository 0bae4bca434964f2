import PolicySeal.Decimal.Double
/-
  PolicySeal.Decimal.Shortest — the fewest decimal digits that read back as a double.

  A decimal reads back as `d` when it lies in the interval of numbers that round to `d`
  (its ends count when the significand is even). The digits are sought on the grids of
  1, 2, … 17 digits: on each only the two neighbours of the value can be nearest, the first
  grid with a hit wins, and of two hits the nearer.

  All comparisons are between whole numbers, scaled by `10 ^ 400 * 2 ^ 1076`.
-/

namespace PolicySeal.Decimal

/-- A whole number of `digits` (most significant first) times `10 ^ exponent`. -/
structure Digits where
  significand : Nat
  exponent : Int
  deriving DecidableEq

namespace Shortest

def scale : Nat := 400

/-- Four times the magnitude of `d`, the value at which a decimal is compared. -/
def target (d : Double) : Nat := 4 * d.units * Nat.pow 10 scale

/-- The lower end of the interval that rounds to `d`: at a power of two the neighbour below is
only half as far away. -/
def lower (d : Double) : Nat :=
  let (m, e) := d.parts
  (4 * m - (if m = Nat.pow 2 52 ∧ 0 < e then 1 else 2)) * Nat.pow 2 e * Nat.pow 10 scale

def upper (d : Double) : Nat :=
  let (m, e) := d.parts
  (4 * m + 2) * Nat.pow 2 e * Nat.pow 10 scale

def readsBack (d : Double) (x : Nat) : Bool :=
  if d.parts.1 % 2 = 0 then lower d ≤ x && x ≤ upper d else lower d < x && x < upper d

/-- The exponent of the leading decimal digit, plus `scale`. -/
def leading (d : Double) : Nat := (Nat.toDigits 10 (target d / Nat.pow 2 1076)).length - 1

/-- The best decimal with `n` digits, if one reads back. -/
def onGrid? (d : Double) (n : Nat) : Option Digits :=
  let k := leading d + 1 - n
  let grid := Nat.pow 10 k * Nat.pow 2 1076
  let below := target d / grid
  let above := below + 1
  let pick (c : Nat) : Digits := ⟨c, (k : Int) - scale⟩
  match readsBack d (below * grid), readsBack d (above * grid) with
  | true, true =>
    let low := target d - below * grid
    let high := above * grid - target d
    if low < high ∨ (low = high ∧ below % 2 = 0) then some (pick below) else some (pick above)
  | true, false => some (pick below)
  | false, true => some (pick above)
  | false, false => none

end Shortest

/-- The shortest decimal that reads back as the magnitude of a nonzero `d`. -/
def shortest (d : Double) : Digits :=
  ((List.range 17).findSome? fun n => Shortest.onGrid? d (n + 1)).getD ⟨0, 0⟩

/-- Moves zeros at the end of the significand into the exponent. -/
def Digits.trim (x : Digits) : Digits :=
  let cs := Nat.toDigits 10 x.significand
  let zeros := (cs.reverse.takeWhile (· == '0')).length
  if x.significand = 0 then ⟨0, 0⟩ else ⟨x.significand / Nat.pow 10 zeros, x.exponent + zeros⟩

end PolicySeal.Decimal
