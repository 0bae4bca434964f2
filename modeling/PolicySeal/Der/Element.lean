import PolicySeal.Bytes
/-
  PolicySeal.Der.Element — tagged values in the distinguished encoding (X.690).

  An element is a tag byte, the length in as few bytes as it needs, and the content. Tags
  have one byte; lengths are definite and below `2 ^ 28`.

  - `Element.encode` writes an element, `Element.split?` reads the first of some bytes;
  - `Element.list?` reads bytes that are elements and nothing else;
  - `wrap` and `Element.inside?` put elements into an element and take them out;
  - `takeField` finds the fields that are told by their numbers.
-/

namespace PolicySeal.Der

structure Element where
  tag : UInt8
  content : Bytes
  deriving DecidableEq

/-! ## Tags -/

namespace Tag

def boolean : UInt8 := 0x01
def integer : UInt8 := 0x02
def bitString : UInt8 := 0x03
def octetString : UInt8 := 0x04
def null : UInt8 := 0x05
def objectId : UInt8 := 0x06
def utf8String : UInt8 := 0x0C
def printableString : UInt8 := 0x13
def teletexString : UInt8 := 0x14
def ia5String : UInt8 := 0x16
def utcTime : UInt8 := 0x17
def generalizedTime : UInt8 := 0x18
def sequence : UInt8 := 0x30
def set : UInt8 := 0x31

/-- A field that is told by its number: around an element, or in place of its tag. -/
def explicitField (n : Nat) : UInt8 := UInt8.ofNat (0xA0 + n)
def implicitField (n : Nat) : UInt8 := UInt8.ofNat (0x80 + n)

/-- The universal types that are known. -/
def universal : List UInt8 :=
  [0x01, 0x02, 0x03, 0x04, 0x05, 0x06, 0x09, 0x0A, 0x0C, 0x12, 0x13, 0x14, 0x15, 0x16, 0x17, 0x18, 0x1A, 0x1E, 0x30,
    0x31]

/-- A known universal type, or a type of another class with a number below 31. -/
def isKnown (b : UInt8) : Bool := (0x40 ≤ b && b &&& 0x1F != 0x1F) || universal.contains b

end Tag

/-! ## Lengths -/

def maxLength : Nat := 0x0FFFFFFF

def encodeLength (n : Nat) : Bytes :=
  if n < 128 then [UInt8.ofNat n]
  else
    let bs := Bytes.minimal n
    UInt8.ofNat (0x80 + bs.length) :: bs

/-- The length at the head of some bytes; none where it is not written in the least way. -/
def splitLength? : Bytes → Option (Nat × Bytes)
  | [] => none
  | b :: rest =>
    if b < 0x80 then some (b.toNat, rest)
    else
      let size := b.toNat - 0x80
      let n := Bytes.toNat (rest.take size)
      if size = 0 ∨ 4 < size ∨ rest.length < size ∨ n < 128 ∨ maxLength < n ∨ Bytes.width n ≠ size then none
      else some (n, rest.drop size)

/-! ## Elements -/

namespace Element

def encode (e : Element) : Bytes := e.tag :: (encodeLength e.content.length ++ e.content)

def split? : Bytes → Option (Element × Bytes)
  | [] => none
  | tag :: rest =>
    if !Tag.isKnown tag then none
    else do
      let (n, rest) ← splitLength? rest
      if n ≤ rest.length then some (⟨tag, rest.take n⟩, rest.drop n) else none

def listWithin : Nat → Bytes → Option (List Element)
  | _, [] => some []
  | 0, _ => none
  | fuel + 1, bs => do
    let (e, rest) ← split? bs
    return e :: (← listWithin fuel rest)

/-- The elements that some bytes consist of. -/
def list? (bs : Bytes) : Option (List Element) := listWithin bs.length bs

/-- The one element that some bytes are. -/
def one? (bs : Bytes) : Option Element :=
  match split? bs with
  | some (e, []) => some e
  | _ => none

/-- The content of an element with the tag. -/
def tagged? (tag : UInt8) (e : Element) : Option Bytes := if e.tag = tag then some e.content else none

/-- The elements inside an element with the tag. -/
def inside? (tag : UInt8) (e : Element) : Option (List Element) := (e.tagged? tag).bind list?

end Element

/-! ## Elements that hold elements -/

def wrap (tag : UInt8) (parts : List Element) : Element := ⟨tag, (parts.map Element.encode).flatten⟩

def sequence (parts : List Element) : Element := wrap Tag.sequence parts

/-- The number of a field, for an element whose tag is of the context class. -/
def Element.fieldNumber? (e : Element) : Option Nat :=
  if e.tag &&& 0xC0 = 0x80 then some (e.tag &&& 0x1F).toNat else none

/-- Takes the field with the number from the front, passing over fields with lower ones. -/
def takeField (n : Nat) : List Element → Option Element × List Element
  | [] => (none, [])
  | e :: rest =>
    match e.fieldNumber? with
    | none => (none, e :: rest)
    | some m => if m < n then takeField n rest else if m = n then (some e, rest) else (none, e :: rest)

/-- The one element inside a field that is written around it. -/
def Element.explicit? (n : Nat) (e : Element) : Option Element :=
  match e.inside? (Tag.explicitField n) with
  | some [inner] => some inner
  | _ => none

end PolicySeal.Der
