import PolicySeal.X509.Name
/-
  PolicySeal.X509.NameText — distinguished names as text (RFC 4514).

  The last part of a name is written first. Parts have commas between them, the attributes of
  a part plus signs; `\` takes the meaning from the sign after it.

  - `Name.text` shows a name; a value that is no readable text is shown as the hexadecimal
    digits of its encoding, after the type's identifier;
  - `Name.ofText?` reads one. Nothing is trimmed, and the content of values is not checked.
-/

namespace PolicySeal.X509

open Der

/-! ## Writing -/

def isPrintableByte (b : UInt8) : Bool :=
  let c := Char.ofNat b.toNat
  c.isAlphanum || [' ', '\'', '(', ')', '+', ',', '-', '.', '/', ':', '=', '?'].contains c

/-- The text of a value that is one of the string types and holds what its type allows. -/
def valueText? (v : Element) : Option String :=
  if v.tag = Tag.utf8String then Text.ofUtf8? v.content
  else if v.tag = Tag.printableString then
    if v.content.all isPrintableByte then some (Text.ofAscii v.content) else none
  else if v.tag = Tag.ia5String ∨ v.tag = Tag.teletexString then
    if v.content.all (· < 0x80) then some (Text.ofAscii v.content) else none
  else none

/-- The signs that mean something in a name. -/
def specials : List Char := ['"', '+', ',', ';', '<', '>', '\\']

def shownChar (isFirst isLast : Bool) (c : Char) : List Char :=
  if (c == '#' && isFirst) || (c == ' ' && (isFirst || isLast)) || specials.contains c then ['\\', c]
  else if c.toNat < 0x20 ∨ c.toNat = 0x7F then '\\' :: Bytes.hexByte (UInt8.ofNat c.toNat)
  else [c]

def shownChars (isFirst : Bool) : List Char → List Char
  | [] => []
  | c :: rest => shownChar isFirst rest.isEmpty c ++ shownChars false rest

def Attribute.text (a : Attribute) : String :=
  match AttributeType.shownName? a.type, valueText? a.value with
  | some name, some value => name ++ "=" ++ String.ofList (shownChars true value.toList)
  | _, _ => a.type.text ++ "=#" ++ Bytes.hex a.value.encode

def Rdn.text (r : Rdn) : String := "+".intercalate (r.attributes.map Attribute.text)

def Name.text (n : Name) : String := ",".intercalate (n.parts.reverse.map Rdn.text)

/-! ## Reading -/

/-- Splits at the separators that have no `\` before them, or one that has a `\` before it;
`before` and `last` are the two characters before the text. -/
def splitAtUnescaped (separator before last : Char) : List Char → List (List Char)
  | [] => [[]]
  | c :: rest =>
    let pieces := splitAtUnescaped separator last c rest
    if c = separator ∧ (last ≠ '\\' ∨ before = '\\') then [] :: pieces
    else
      match pieces with
      | [] => [[c]]
      | p :: ps => (c :: p) :: ps

def splitUnescaped (separator : Char) (cs : List Char) : List (List Char) :=
  splitAtUnescaped separator '\x00' '\x00' cs

/-- The signs that may stand after a `\`. -/
def escapable : List Char := [' ', '#', '='] ++ specials

/-- The bytes of a value without its escapes: `\` and a sign, or two digits of a byte. One that is cut
off at the end is dropped. -/
def unescape? : List Char → Option Bytes
  | [] => some []
  | ['\\'] => some []
  | '\\' :: c :: rest =>
    match Bytes.hexDigit? c with
    | none => if escapable.contains c then (unescape? rest).map (String.utf8EncodeChar c ++ ·) else none
    | some high =>
      match rest with
      | [] => some []
      | d :: rest => do
        let low ← Bytes.hexDigit? d
        return UInt8.ofNat (16 * high + low) :: (← unescape? rest)
  | c :: rest => (unescape? rest).map (String.utf8EncodeChar c ++ ·)

/-- The string type of values of an attribute type. -/
def valueTag (type : Oid) : UInt8 :=
  if type = AttributeType.country ∨ type = AttributeType.serialNumber then Tag.printableString
  else if type = AttributeType.domainComponent then Tag.ia5String
  else Tag.utf8String

/-- A value is the hexadecimal digits of an element after `#`, or text. -/
def value? (type : Oid) : List Char → Option Element
  | '#' :: digits => (Bytes.ofHexChars? digits).bind Element.one?
  | cs => (unescape? cs).map fun bs => ⟨valueTag type, bs⟩

def Attribute.ofChars? (cs : List Char) : Option Attribute := do
  match cs.span (· != '=') with
  | (name, '=' :: value) =>
    let type ← AttributeType.ofText? (String.ofList name)
    return ⟨type, ← value? type value⟩
  | _ => none

def Rdn.ofChars? (cs : List Char) : Option Rdn := do
  Rdn.ofList? (← (splitUnescaped '+' cs).mapM Attribute.ofChars?)

def Name.ofText? (text : String) : Option Name := do
  return ⟨(← (splitUnescaped ',' text.toList).mapM Rdn.ofChars?).reverse⟩

end PolicySeal.X509
