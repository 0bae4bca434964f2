import PolicySeal.Json.Shape
/-
  PolicySeal.Policy.Label — the security label of a policy, and its signature block.

  Both are read from a JSON value and written as members in a fixed order. A label keeps
  the members it does not know (`extensions`); written, they follow the known ones, and one
  that has a known name takes that member's place.
-/

namespace PolicySeal

open Json

structure Label where
  classification : String
  releasabilityTo : List String
  coi : List String
  coiOperator : Option String
  caveats : List String
  originatingCountry : String
  creationDate : Option String
  displayMarking : Option String
  extensions : Members

structure SignatureBlock where
  algorithm : String
  value : String
  signerId : String
  timestamp : String
  deriving DecidableEq

/-- A member that is written only if there is a value. -/
def optionalMember (name : String) (value : Option String) : Members :=
  match value with
  | some s => [(name, .string s)]
  | none => []

namespace Label

def fieldNames : List String :=
  ["classification", "releasabilityTo", "COI", "coiOperator", "caveats", "originatingCountry", "creationDate",
    "displayMarking"]

/-- What the known members must be. -/
def wanted (name : String) : Option (Shape.Reader Unit) :=
  match name with
  | "classification" => some (Shape.unit Shape.string)
  | "releasabilityTo" => some (Shape.unit Shape.strings)
  | "COI" => some (Shape.unit Shape.strings)
  | "coiOperator" => some (Shape.unit (Shape.optional Shape.string))
  | "caveats" => some (Shape.unit Shape.strings)
  | "originatingCountry" => some (Shape.unit Shape.string)
  | "creationDate" => some (Shape.unit (Shape.optional Shape.string))
  | "displayMarking" => some (Shape.unit (Shape.optional Shape.string))
  | _ => none

def ofMembers (ms : Members) : Except ShapeError Label := do
  Shape.check wanted ms
  return {
    classification := ← Shape.field ms "classification" Shape.string
    releasabilityTo := ← Shape.fieldOr ms "releasabilityTo" Shape.strings []
    coi := ← Shape.fieldOr ms "COI" Shape.strings []
    coiOperator := ← Shape.fieldOr ms "coiOperator" (Shape.optional Shape.string) none
    caveats := ← Shape.fieldOr ms "caveats" Shape.strings []
    originatingCountry := ← Shape.field ms "originatingCountry" Shape.string
    creationDate := ← Shape.fieldOr ms "creationDate" (Shape.optional Shape.string) none
    displayMarking := ← Shape.fieldOr ms "displayMarking" (Shape.optional Shape.string) none
    extensions := ms.filter fun m => !fieldNames.contains m.1 }

def ofJson : Shape.Reader Label
  | .object ms => ofMembers ms
  | v => .error (Shape.wrong v "struct SecurityLabel")

/-- The known members, in order. -/
def known (l : Label) : Members :=
  [("classification", .string l.classification),
    ("releasabilityTo", strings l.releasabilityTo),
    ("COI", strings l.coi)]
    ++ optionalMember "coiOperator" l.coiOperator
    ++ [("caveats", strings l.caveats),
      ("originatingCountry", .string l.originatingCountry)]
    ++ optionalMember "creationDate" l.creationDate
    ++ optionalMember "displayMarking" l.displayMarking

def view (l : Label) : Members := l.extensions.foldl (fun ms m => Members.put ms m.1 m.2) l.known

end Label

namespace SignatureBlock

def wanted (name : String) : Option (Shape.Reader Unit) :=
  if name ∈ ["algorithm", "value", "signerId", "timestamp"] then some (Shape.unit Shape.string) else none

def ofMembers (ms : Members) : Except ShapeError SignatureBlock := do
  Shape.check wanted ms
  return {
    algorithm := ← Shape.field ms "algorithm" Shape.string
    value := ← Shape.field ms "value" Shape.string
    signerId := ← Shape.field ms "signerId" Shape.string
    timestamp := ← Shape.field ms "timestamp" Shape.string }

/-- The four fields in order. -/
def ofItems (items : List Json) : Except ShapeError SignatureBlock := do
  match ← (items.take 4).mapM Shape.string with
  | [algorithm, value, signerId, timestamp] =>
    if items.length = 4 then return { algorithm, value, signerId, timestamp }
    else throw (.wrongLength items.length "fewer elements in array")
  | given => throw (.wrongLength given.length "struct PolicySignature with 4 elements")

def ofJson : Shape.Reader SignatureBlock
  | .object ms => ofMembers ms
  | .array items => ofItems items
  | v => .error (Shape.wrong v "struct PolicySignature")

def view (b : SignatureBlock) : Members :=
  [("algorithm", .string b.algorithm), ("value", .string b.value), ("signerId", .string b.signerId),
    ("timestamp", .string b.timestamp)]

end SignatureBlock

end PolicySeal
