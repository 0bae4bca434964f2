import PolicySeal.X509.AttributeType
/-
  PolicySeal.X509.Name — distinguished names in their encoding.

  A name is a sequence of parts, and a part a set of attributes, of which no two are equal.
  The encoding of a set lists its members in the order of their encodings, so a part keeps
  them in that order (`Rdn.sorted`).
-/

namespace PolicySeal.X509

open Der

structure Attribute where
  type : Oid
  value : Element
  deriving DecidableEq

namespace Attribute

def toElement (a : Attribute) : Element := sequence [a.type.toElement, a.value]

def ofElement? (e : Element) : Option Attribute := do
  match ← e.inside? Tag.sequence with
  | [type, value] => return ⟨← Oid.ofElement? type, value⟩
  | _ => none

def encode (a : Attribute) : Bytes := a.toElement.encode

end Attribute

/-- Attributes in rising order of their encodings. -/
abbrev Rising (as : List Attribute) : Prop := as.Pairwise fun a b => a.encode < b.encode

/-- One part of a name: a relative distinguished name. -/
structure Rdn where
  attributes : List Attribute
  sorted : Rising attributes
  deriving DecidableEq

namespace Rdn

/-- The part with the attributes, unless one comes twice. -/
def ofList? (as : List Attribute) : Option Rdn :=
  let s := as.mergeSort fun a b => decide (a.encode ≤ b.encode)
  if h : Rising s then some ⟨s, h⟩ else none

def toElement (r : Rdn) : Element := wrap Tag.set (r.attributes.map Attribute.toElement)

def ofElement? (e : Element) : Option Rdn := do
  ofList? (← (← e.inside? Tag.set).mapM Attribute.ofElement?)

end Rdn

structure Name where
  parts : List Rdn
  deriving DecidableEq

namespace Name

def toElement (n : Name) : Element := sequence (n.parts.map Rdn.toElement)

def ofElement? (e : Element) : Option Name := do
  return ⟨← (← e.inside? Tag.sequence).mapM Rdn.ofElement?⟩

end Name

end PolicySeal.X509
