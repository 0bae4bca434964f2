import PolicySeal.Der.Element
/-
  PolicySeal.Der.Oid — object identifiers.

  An identifier is kept as its encoding: the first byte holds the first two arcs, each
  further arc is written in base 128. Identifiers that are read have three to 39 bytes, a
  first byte below 120, and arcs of at most five bytes, of which a fifth one stays below 16.
-/

namespace PolicySeal.Der

structure Oid where
  content : Bytes
  deriving DecidableEq

namespace Oid

/-- The arcs after the first byte; `arc` is the value so far of an arc that has `used` bytes. -/
def arcsAfter? (arc used : Nat) : Bytes → Option (List Nat)
  | [] => if used = 0 then some [] else none
  | b :: rest =>
    if 4 ≤ used ∧ 0x10 ≤ b then none
    else
      let arc := (arc * 128 + b.toNat % 128) % 0x100000000
      if b < 0x80 then (arcsAfter? 0 0 rest).map (arc :: ·) else arcsAfter? arc (used + 1) rest

def arcs? : Bytes → Option (List Nat)
  | [] => none
  | b :: rest => if b < 120 then (arcsAfter? 0 0 rest).map fun arcs => b.toNat / 40 :: b.toNat % 40 :: arcs else none

def minLength : Nat := 3
def maxLength : Nat := 39

def ofContent? (content : Bytes) : Option Oid :=
  if minLength ≤ content.length ∧ content.length ≤ maxLength ∧ (arcs? content).isSome then some ⟨content⟩ else none

def arcs (o : Oid) : List Nat := (arcs? o.content).getD []

/-- The arcs with points between. -/
def text (o : Oid) : String := ".".intercalate (o.arcs.map toString)

def toElement (o : Oid) : Element := ⟨Tag.objectId, o.content⟩

def ofElement? (e : Element) : Option Oid := (e.tagged? Tag.objectId).bind ofContent?

/-! ## From arcs and from text -/

/-- The bytes of an arc but its last, with their high bits on. -/
def highBytes : Nat → Nat → Bytes
  | 0, _ => []
  | fuel + 1, n => if n = 0 then [] else highBytes fuel (n / 128) ++ [UInt8.ofNat (0x80 + n % 128)]

def arcBytes (n : Nat) : Bytes := highBytes 5 (n / 128) ++ [UInt8.ofNat (n % 128)]

/-- The encoding of arcs of which there are two at least. -/
def ofArcs : List Nat → Oid
  | a :: b :: rest => ⟨UInt8.ofNat (40 * a + b) :: rest.flatMap arcBytes⟩
  | _ => ⟨[]⟩

/-- The numbers between the points of a text; one that is left out is zero. -/
def arcsOfChars? (arc : Nat) : List Char → Option (List Nat)
  | [] => some [arc]
  | c :: rest =>
    if c = '.' then
      if rest.isEmpty then none else (arcsOfChars? 0 rest).map (arc :: ·)
    else if c.isDigit then arcsOfChars? ((arc * 10 + (c.toNat - '0'.toNat)) % 0x100000000) rest
    else none

def maxWrittenLength : Nat := 38

/-- Reads arcs with points between, from the first digit on. -/
def ofText? (text : String) : Option Oid := do
  let cs := text.toList
  if !(cs.head?.any Char.isDigit) then none
  match ← arcsOfChars? 0 cs with
  | a :: b :: c :: rest =>
    let oid := ofArcs (a :: b :: c :: rest)
    if 2 < a ∨ 39 < b ∨ maxWrittenLength < oid.content.length then none else some oid
  | _ => none

end Oid

end PolicySeal.Der
