import PolicySeal.Bytes
import PolicySeal.Text.Blank
/-
  PolicySeal.Base64 — bytes as text, four symbols for three bytes (RFC 4648).

  Padding is required, and bits that stand for no byte must be zero, so a byte string has one
  encoding. `decode` says what is wrong with a text and where:
  - first the symbols before the last group are looked at, then the last group;
  - then its length, its padding and its unused bits.
  A text of one symbol more than whole groups is checked from its end first.
-/

namespace PolicySeal.Base64

inductive DecodeError where
  | symbol (byte : UInt8) (offset : Nat)
  | length (n : Nat)
  | lastSymbol (byte : UInt8) (offset : Nat)
  | padding
  deriving DecidableEq

def DecodeError.message : DecodeError → String
  | symbol byte offset => "Invalid symbol " ++ toString byte.toNat ++ ", offset " ++ toString offset ++ "."
  | length n => "Invalid input length: " ++ toString n
  | lastSymbol byte offset => "Invalid last symbol " ++ toString byte.toNat ++ ", offset " ++ toString offset ++ "."
  | padding => "Invalid padding"

/-! ## Symbols -/

/-- The symbol of a six-bit value. -/
def symbol (n : Nat) : UInt8 :=
  UInt8.ofNat <|
    if n < 26 then 'A'.toNat + n
    else if n < 52 then 'a'.toNat + (n - 26)
    else if n < 62 then '0'.toNat + (n - 52)
    else if n = 62 then '+'.toNat
    else '/'.toNat

def value? (b : UInt8) : Option Nat :=
  let c := b.toNat
  if 'A'.toNat ≤ c ∧ c ≤ 'Z'.toNat then some (c - 'A'.toNat)
  else if 'a'.toNat ≤ c ∧ c ≤ 'z'.toNat then some (c - 'a'.toNat + 26)
  else if '0'.toNat ≤ c ∧ c ≤ '9'.toNat then some (c - '0'.toNat + 52)
  else if c = '+'.toNat then some 62
  else if c = '/'.toNat then some 63
  else none

def pad : UInt8 := 61

/-! ## Encoding -/

def encodeBytes : Bytes → Bytes
  | [] => []
  | [a] =>
    let n := a.toNat * 0x10000
    [symbol (n / 0x40000), symbol (n / 0x1000 % 64), pad, pad]
  | [a, b] =>
    let n := a.toNat * 0x10000 + b.toNat * 0x100
    [symbol (n / 0x40000), symbol (n / 0x1000 % 64), symbol (n / 0x40 % 64), pad]
  | a :: b :: c :: rest =>
    let n := a.toNat * 0x10000 + b.toNat * 0x100 + c.toNat
    symbol (n / 0x40000) :: symbol (n / 0x1000 % 64) :: symbol (n / 0x40 % 64) :: symbol (n % 64)
      :: encodeBytes rest

def encode (bs : Bytes) : String := Text.ofAscii (encodeBytes bs)

/-! ## Decoding -/

/-- The values of symbols that must all be of the alphabet; `offset` is that of the first. -/
def values (offset : Nat) : Bytes → Except DecodeError (List Nat)
  | [] => .ok []
  | b :: rest =>
    match value? b with
    | none => .error (.symbol b offset)
    | some n => (values (offset + 1) rest).map (n :: ·)

/-- The bytes of whole groups of four values. -/
def joinGroups : List Nat → Bytes
  | a :: b :: c :: d :: rest =>
    let n := a * 0x40000 + b * 0x1000 + c * 0x40 + d
    UInt8.ofNat (n / 0x10000) :: UInt8.ofNat (n / 0x100 % 256) :: UInt8.ofNat (n % 256) :: joinGroups rest
  | _ => []

/-- The values in the last group up to its padding; `index` counts from the start of the group at
`start`. -/
def lastValues (start index : Nat) : Bytes → Except DecodeError (List Nat)
  | [] => .ok []
  | b :: rest =>
    if b = pad then
      if index < 2 then .error (.symbol pad (start + index))
      else if rest.all (· == pad) then .ok []
      else .error (.symbol pad (start + index))
    else
      match value? b with
      | none => .error (.symbol b (start + index))
      | some n => (lastValues start (index + 1) rest).map (n :: ·)

/-- The bytes of a last group, of a text of `total` bytes: two to four values. -/
def lastGroup (start total : Nat) (group : Bytes) : Except DecodeError Bytes := do
  let vs ← lastValues start 0 group
  if vs.length < 2 then throw (.length (start + vs.length))
  if total % 4 ≠ 0 then throw .padding
  match vs with
  | [a, b] =>
    if b % 16 ≠ 0 then throw (.lastSymbol (symbol b) (start + 1))
    return [UInt8.ofNat (a * 4 + b / 16)]
  | [a, b, c] =>
    if c % 4 ≠ 0 then throw (.lastSymbol (symbol c) (start + 2))
    return [UInt8.ofNat (a * 4 + b / 16), UInt8.ofNat (b % 16 * 16 + c / 4)]
  | vs => return joinGroups vs

/-- The start of the last group of a text of `total` bytes. -/
def lastStart (total : Nat) : Nat := if total % 4 = 0 then total - 4 else total - total % 4

def decode (text : Bytes) : Except DecodeError Bytes := do
  let total := text.length
  if total = 0 then return []
  match text.getLast? with
  | some b =>
    if total % 4 = 1 ∧ b ≠ pad ∧ (value? b).isNone then throw (.symbol b (total - 1))
  | none => pure ()
  let start := lastStart total
  let front ← values 0 (text.take start)
  return joinGroups front ++ (← lastGroup start total (text.drop start))

end Base64

/-! ## The value of a signature block -/

inductive ValueError where
  | empty
  | malformed (reason : Base64.DecodeError)
  deriving DecidableEq

def ValueError.message : ValueError → String
  | empty => "signature value is empty"
  | malformed reason => "invalid base64 signature: " ++ reason.message

/-- The bytes of a signature, read from its text without the white space around it. -/
def decodeSignatureValue (text : String) : Except ValueError Bytes :=
  match Text.utf8 (Text.trim text) with
  | [] => .error .empty
  | bytes => (Base64.decode bytes).mapError .malformed

end PolicySeal
