import PolicySeal.Der.Element
import PolicySeal.Time.Instant
/-
  PolicySeal.Der.Primitive — numbers, bit strings and times inside elements.

  Integers have no byte more than they need. Times are to the second and in UTC: a UTC time
  has two digits of a year from 1950 on, a generalized time four; neither is before 1970.
-/

namespace PolicySeal.Der

/-! ## Integers -/

/-- The least number of bytes in two's complement. -/
def isMinimalInteger : Bytes → Bool
  | [] => false
  | [_] => true
  | a :: b :: _ => !((a == 0 && b < 0x80) || (a == 0xFF && 0x80 ≤ b))

/-- The content of an integer. -/
def integerBytes? (e : Element) : Option Bytes :=
  (e.tagged? Tag.integer).filter isMinimalInteger

/-- An integer that is not negative. -/
def natural? (e : Element) : Option Nat := do
  let bs ← integerBytes? e
  match bs with
  | b :: _ => if b < 0x80 then some (Bytes.toNat bs) else none
  | [] => none

/-- The content of an integer that is not negative. -/
def naturalBytes (n : Nat) : Bytes :=
  match Bytes.minimal n with
  | [] => [0]
  | b :: bs => if b < 0x80 then b :: bs else 0 :: b :: bs

def natural (n : Nat) : Element := ⟨Tag.integer, naturalBytes n⟩

/-! ## Booleans, octets, null -/

def boolean? (e : Element) : Option Bool :=
  match e.tagged? Tag.boolean with
  | some [0] => some false
  | some [0xFF] => some true
  | _ => none

def boolean (b : Bool) : Element := ⟨Tag.boolean, [if b then 0xFF else 0]⟩

def octets (bs : Bytes) : Element := ⟨Tag.octetString, bs⟩

def null : Element := ⟨Tag.null, []⟩

/-! ## Bit strings -/

/-- Bytes of which the last `unused` bits do not count. -/
structure BitString where
  unused : Nat
  bytes : Bytes
  deriving DecidableEq

namespace BitString

def ofContent? : Bytes → Option BitString
  | [] => none
  | u :: bytes => if 7 < u ∨ (u ≠ 0 ∧ bytes = []) then none else some ⟨u.toNat, bytes⟩

def content (b : BitString) : Bytes := UInt8.ofNat b.unused :: b.bytes

def ofElement? (e : Element) : Option BitString := (e.tagged? Tag.bitString).bind ofContent?

def toElement (b : BitString) : Element := ⟨Tag.bitString, b.content⟩

/-- Whole bytes. -/
def ofBytes (bs : Bytes) : BitString := ⟨0, bs⟩

/-- The bytes of a bit string that ends on a whole one. -/
def octets? (b : BitString) : Option Bytes := if b.unused = 0 then some b.bytes else none

/-- The bits, packed from the highest of each byte on. -/
def pack : Nat → List Bool → Bytes
  | 0, _ => []
  | _, [] => []
  | fuel + 1, bits =>
    let byte := ((bits.take 8 ++ List.replicate (8 - bits.length) false).foldl (fun n b => 2 * n + b.toNat) 0)
    UInt8.ofNat byte :: pack fuel (bits.drop 8)

/-- The least bit string of some bits: those that are not set at the end do not count. -/
def ofBits (bits : List Bool) : BitString :=
  let bits := (bits.reverse.dropWhile (! ·)).reverse
  ⟨(8 - bits.length % 8) % 8, pack bits.length bits⟩

/-- Whether a bit counts and is set; the first bit is the highest of the first byte. -/
def bit (b : BitString) (i : Nat) : Bool :=
  i + b.unused < 8 * b.bytes.length && (b.bytes.getD (i / 8) 0).toNat.testBit (7 - i % 8)

end BitString

/-! ## Times -/

inductive TimeForm where
  | utc
  | generalized
  deriving DecidableEq

/-- A time to the second and the form it is written in. -/
structure Timestamp where
  form : TimeForm
  /-- Seconds from 1970-01-01T00:00:00Z. -/
  seconds : Nat
  deriving DecidableEq

namespace Timestamp

open PolicySeal.Time

/-- The number that decimal digits spell. -/
def digits? (bs : Bytes) : Option Nat :=
  if bs.all fun b => 0x30 ≤ b && b ≤ 0x39 then some (bs.foldl (fun n b => 10 * n + (b.toNat - 0x30)) 0) else none

def digits (width n : Nat) : Bytes :=
  match width with
  | 0 => []
  | width + 1 => digits width (n / 10) ++ [UInt8.ofNat (0x30 + n % 10)]

/-- Seconds from 1970 of a date and time of day; none where there is no such time from then on. -/
def seconds? (year month day hour minute second : Nat) : Option Nat :=
  let date : Date := ⟨year, month, day⟩
  if year < 1970 ∨ !date.isValid ∨ 23 < hour ∨ 59 < minute ∨ 59 < second then none
  else some (date.dayNumber.toNat * 86400 + hour * 3600 + minute * 60 + second)

/-- Month to second in ten digits, and `Z`. -/
def afterYear? (year : Nat) (bs : Bytes) : Option Nat :=
  if bs.length ≠ 11 ∨ bs.getLast? ≠ some 0x5A then none
  else do
    let pair (i : Nat) : Option Nat := digits? ((bs.drop i).take 2)
    seconds? year (← pair 0) (← pair 2) (← pair 4) (← pair 6) (← pair 8)

/-- Two digits of a year stand for 1950 to 2049. -/
def century (yy : Nat) : Nat := if 50 ≤ yy then 1900 + yy else 2000 + yy

def ofElement? (e : Element) : Option Timestamp :=
  if e.tag = Tag.utcTime then do
    let year := century (← digits? (e.content.take 2))
    return ⟨.utc, ← afterYear? year (e.content.drop 2)⟩
  else if e.tag = Tag.generalizedTime then do
    let year ← digits? (e.content.take 4)
    return ⟨.generalized, ← afterYear? year (e.content.drop 4)⟩
  else none

def instant (t : Timestamp) : Instant := .ofSeconds t.seconds

/-- Why an instant cannot be written. -/
inductive Unwritable where
  | beforeEpoch
  | afterLastYear
  deriving DecidableEq

/-- The first year that a UTC time cannot stand for. -/
def firstGeneralizedYear : Int := 2050

def lastYear : Int := 9999

/-- An instant without its part of a second, in the form that its year asks for. -/
def ofInstant (t : Instant) : Except Unwritable Timestamp :=
  let year := t.reading.date.year
  if t.seconds < 0 then .error .beforeEpoch
  else if lastYear < year then .error .afterLastYear
  else .ok ⟨if year < firstGeneralizedYear then .utc else .generalized, t.seconds.toNat⟩

def content (t : Timestamp) : Bytes :=
  let r := t.instant.reading
  let year := r.date.year.toNat
  let year := match t.form with
    | .utc => digits 2 (year % 100)
    | .generalized => digits 4 year
  year ++ digits 2 r.date.month ++ digits 2 r.date.day ++ digits 2 r.hour ++ digits 2 r.minute ++ digits 2 r.second
    ++ [0x5A]

def tag (t : Timestamp) : UInt8 :=
  match t.form with
  | .utc => Tag.utcTime
  | .generalized => Tag.generalizedTime

def toElement (t : Timestamp) : Element := ⟨t.tag, t.content⟩

end Timestamp

end PolicySeal.Der
