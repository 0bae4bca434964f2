/-
  PolicySeal.Bytes — byte strings, as numbers and in hexadecimal.

  Numbers are written most significant byte first. `Bytes.ofNat` fills a given length,
  `Bytes.minimal` takes as few bytes as the number needs.
-/

namespace PolicySeal

abbrev Bytes := List UInt8

namespace Bytes

def toNat (bs : Bytes) : Nat := bs.foldl (fun n b => 256 * n + b.toNat) 0

/-- The last `length` bytes of a number. -/
def ofNat : Nat → Nat → Bytes
  | 0, _ => []
  | length + 1, n => UInt8.ofNat (n / Nat.pow 256 length) :: ofNat length n

/-- How many bytes a number needs; zero needs none. -/
def width (n : Nat) : Nat := if n = 0 then 0 else n.log2 / 8 + 1

def minimal (n : Nat) : Bytes := ofNat (width n) n

/-- Cuts into pieces of `size` bytes, the last one maybe shorter. -/
def chunksWithin (size : Nat) : Nat → Bytes → List Bytes
  | 0, _ => []
  | _, [] => []
  | fuel + 1, bs => bs.take size :: chunksWithin size fuel (bs.drop size)

def chunks (size : Nat) (bs : Bytes) : List Bytes := chunksWithin size bs.length bs

/-! ## Hexadecimal -/

def hexByte (b : UInt8) : List Char := [Nat.digitChar (b.toNat / 16), Nat.digitChar (b.toNat % 16)]

/-- Two lower-case digits a byte. -/
def hex (bs : Bytes) : String := String.ofList (bs.flatMap hexByte)

def hexDigit? (c : Char) : Option Nat :=
  if '0' ≤ c ∧ c ≤ '9' then some (c.toNat - '0'.toNat)
  else if 'a' ≤ c ∧ c ≤ 'f' then some (c.toNat - 'a'.toNat + 10)
  else if 'A' ≤ c ∧ c ≤ 'F' then some (c.toNat - 'A'.toNat + 10)
  else none

def ofHexChars? : List Char → Option Bytes
  | [] => some []
  | [_] => none
  | a :: b :: rest => do
    let high ← hexDigit? a
    let low ← hexDigit? b
    return UInt8.ofNat (16 * high + low) :: (← ofHexChars? rest)

/-- The bytes that pairs of digits spell. -/
def ofHex? (s : String) : Option Bytes := ofHexChars? s.toList

end Bytes

/-! ## UTF-8 -/

/-- The UTF-8 encoding of a text. -/
def Text.utf8 (s : String) : Bytes := s.toList.flatMap String.utf8EncodeChar

/-- The text of bytes that are characters of ASCII. -/
def Text.ofAscii (bs : Bytes) : String := String.ofList (bs.map fun b => Char.ofNat b.toNat)

/-- The text that some bytes encode, if they are UTF-8. -/
def Text.ofUtf8? (bs : Bytes) : Option String := String.fromUTF8? ⟨bs.toArray⟩

end PolicySeal
