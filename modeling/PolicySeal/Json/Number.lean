import PolicySeal.Decimal.Shortest
/-
  PolicySeal.Json.Number — the numbers of a JSON document and their text.

  A numeral without point and exponent is kept exactly as long as it fits 64 bits, signed or
  unsigned. Every other numeral, `-0` included, is a double.

  Reading a double takes as many leading digits as fit 64 bits as its significand, and scales
  that by the power of ten that the point, the exponent and the digits left out ask for.
  Writing gives the fewest digits that read back, in plain notation while the leading digit
  stands between `10 ^ -5` and `10 ^ 15`, and always with a point or an exponent.
-/

namespace PolicySeal.Json

open PolicySeal.Decimal

inductive Number where
  | whole (value : Int) (range : -0x8000000000000000 ≤ value ∧ value < 0x10000000000000000)
  | float (value : Double)
  deriving DecidableEq

namespace Number

/-- The whole number nearest to `i` among those that are kept exactly. -/
def ofInt (i : Int) : Number := .whole (max (-0x8000000000000000) (min i 0xFFFFFFFFFFFFFFFF)) (by omega)

/-- Equality as the documents' readers see it: a whole number differs from every double, and the
two zeros among the doubles are equal. -/
def same : Number → Number → Bool
  | whole i _, whole j _ => i == j
  | float a, float b => a.same b
  | _, _ => false

/-! ## Writing -/

def wholeText (i : Int) : List Char :=
  (if i < 0 then ['-'] else []) ++ Nat.toDigits 10 i.natAbs

/-- How doubles are written: the leading digit's exponents of plain notation. -/
structure FloatFormat where
  plainFrom : Int
  plainTo : Int

def floatFormat : FloatFormat := ⟨-5, 15⟩

/-- Digits with the point after the first one, and an exponent with its sign. -/
def scientific (digits : List Char) (leading : Int) : List Char :=
  let fraction := digits.drop 1
  digits.take 1 ++ (if fraction.isEmpty then [] else '.' :: fraction)
    ++ 'e' :: (if leading < 0 then '-' else '+') :: Nat.toDigits 10 leading.natAbs

def plain (digits : List Char) (leading : Int) : List Char :=
  match leading with
  | .negSucc k => '0' :: '.' :: (List.replicate k '0' ++ digits)
  | .ofNat k =>
    let fraction := digits.drop (k + 1)
    digits.take (k + 1) ++ List.replicate (k + 1 - digits.length) '0'
      ++ '.' :: (if fraction.isEmpty then ['0'] else fraction)

def magnitudeText (d : Double) : List Char :=
  if d.isZero then ['0', '.', '0']
  else
    let x := (shortest d).trim
    let digits := Nat.toDigits 10 x.significand
    let leading := x.exponent + digits.length - 1
    if floatFormat.plainFrom ≤ leading ∧ leading ≤ floatFormat.plainTo then plain digits leading
    else scientific digits leading

def floatText (d : Double) : List Char :=
  (if d.negative then ['-'] else []) ++ magnitudeText d

def text : Number → List Char
  | whole i _ => wholeText i
  | float d => floatText d

/-! ## Reading -/

/-- A numeral taken apart. -/
structure Numeral where
  negative : Bool
  whole : List Nat
  fraction : Option (List Nat)
  exponent : Option (Bool × List Nat)

def digitValue (c : Char) : Nat := c.toNat - '0'.toNat

/-- Takes apart a text that has the form of a numeral. -/
def Numeral.ofText (cs : List Char) : Numeral :=
  let negative := cs.head? == some '-'
  let cs := if negative then cs.drop 1 else cs
  let whole := cs.takeWhile Char.isDigit
  let cs := cs.dropWhile Char.isDigit
  let fraction := if cs.head? == some '.' then some ((cs.drop 1).takeWhile Char.isDigit) else none
  let cs := if fraction.isSome then (cs.drop 1).dropWhile Char.isDigit else cs
  let exponent := cs.drop 1
  let sign := exponent.head?
  { negative
    whole := whole.map digitValue
    fraction := fraction.map (·.map digitValue)
    exponent :=
      if cs.isEmpty then none
      else some (sign == some '-',
        ((if sign == some '-' || sign == some '+' then exponent.drop 1 else exponent).map digitValue)) }

/-- The number that the digits spell after `start`, as long as it fits 64 bits, and how many digits
are left out after that. -/
def take64 (start : Nat) : List Nat → Nat × Nat
  | [] => (start, 0)
  | d :: ds => if 10 * start + d < 0x10000000000000000 then take64 (10 * start + d) ds else (start, ds.length + 1)

def valueOf (ds : List Nat) : Nat := ds.foldl (fun n d => 10 * n + d) 0

/-- The double a numeral stands for; none if it is too large. -/
def Numeral.float? (n : Numeral) : Option Double :=
  let (significand, skipped) := take64 0 n.whole
  let fraction := n.fraction.getD []
  let (significand, unread) := take64 significand fraction
  let scale : Int :=
    match n.exponent with
    | none => 0
    | some (true, ds) => -(valueOf ds : Int)
    | some (false, ds) => valueOf ds
  (Double.ofDigits? significand (skipped - (fraction.length - unread : Nat) + scale)).map
    (·.withSign n.negative)

/-- The whole number a numeral without point and exponent stands for, where 64 bits hold it. -/
def Numeral.whole? (n : Numeral) : Option Number :=
  if n.fraction.isSome || n.exponent.isSome then none
  else
    let magnitude := valueOf n.whole
    let value : Int := if n.negative then -(magnitude : Int) else magnitude
    if n.negative ∧ magnitude = 0 then none
    else if h : -0x8000000000000000 ≤ value ∧ value < 0x10000000000000000 then some (.whole value h)
    else none

/-- Reads a text that has the form of a numeral; none if it is too large for a double. -/
def ofText? (cs : List Char) : Option Number :=
  let n := Numeral.ofText cs
  n.whole? <|> (n.float?.map .float)

end Number

end PolicySeal.Json
