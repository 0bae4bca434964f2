import PolicySeal.Policy.Label
/-
  PolicySeal.Policy.Document — policies, and the documents they are written as.

  A policy read from a document keeps that document. Written again, its fields are laid over
  the document as it was received (`overlay`):
  - a member that was received keeps its place and takes the value of the field;
  - one that the policy no longer has is dropped, unless it was received as null;
  - one that was not received comes last, unless it is an empty array.
  A policy made in code has no such document and is written in the order of its fields.
-/

namespace PolicySeal

open Json

structure Policy where
  version : String
  label : Label
  assertions : List Json
  signature : Option SignatureBlock
  /-- The members that are not fields; they are signed like the others. -/
  extensions : Members
  /-- The document as it was received. -/
  received : Option Members

/-- The member that holds the signature block. -/
def signatureField : String := "policySignature"

/-! ## Overlay -/

/-- The members of `typed` that were not received and are more than an empty array. -/
def appended (received typed : Members) : Members :=
  typed.filter fun m => !Members.contains received m.1 && !(m.2 matches .array [])

mutual

/-- The value of a received member, now that it is to be `value`. -/
def overlayValue (received value : Json) : Json :=
  match received, value with
  | .object outer, .object inner => .object (overlayKept outer inner ++ appended outer inner)
  | _, v => v

/-- The received members that stay. -/
def overlayKept : List (String × Json) → Members → Members
  | [], _ => []
  | (k, v) :: rest, typed =>
    match Members.get? typed k, v with
    | some w, v => (k, overlayValue v w) :: overlayKept rest typed
    | none, .null => (k, .null) :: overlayKept rest typed
    | none, _ => overlayKept rest typed

end

def overlay (received typed : Members) : Members := overlayKept received typed ++ appended received typed

/-! ## Policies -/

namespace Policy

/-- A policy made in code. -/
def new (version : String) (label : Label) : Policy :=
  { version, label, assertions := [], signature := none, extensions := [], received := none }

def fieldNames : List String := ["policyVersion", "securityLabel", "policyAssertions", signatureField]

def wanted (name : String) : Option (Shape.Reader Unit) :=
  match name with
  | "policyVersion" => some (Shape.unit Shape.string)
  | "securityLabel" => some (Shape.unit Label.ofJson)
  | "policyAssertions" => some (Shape.unit Shape.list)
  | "policySignature" => some (Shape.unit (Shape.optional SignatureBlock.ofJson))
  | _ => none

def ofMembers (ms : Members) : Except ShapeError Policy := do
  Shape.check wanted ms
  return {
    version := ← Shape.field ms "policyVersion" Shape.string
    label := ← Shape.field ms "securityLabel" Label.ofJson
    assertions := ← Shape.fieldOr ms "policyAssertions" Shape.list []
    signature := ← Shape.fieldOr ms signatureField (Shape.optional SignatureBlock.ofJson) none
    extensions := ms.filter fun m => !fieldNames.contains m.1
    received := some ms }

def ofJson : Shape.Reader Policy
  | .object ms => ofMembers ms
  | v => .error (Shape.wrong v "a map")

/-- A policy in a draft: an object is read as a whole before its members are looked at. -/
def ofDraft : Draft.Reader Policy
  | .object members =>
    match (Draft.object members).value? with
    | some v => (ofJson v).mapError .shape
    | none => .error .broken
  | d => .error (Draft.wrong "a map" d)

def ofText (text : String) : Except ReadError Policy := Draft.readText ofDraft text

def isSigned (p : Policy) : Bool := p.signature.isSome

def withSignature (p : Policy) (block : SignatureBlock) : Policy := { p with signature := some block }

def withoutSignature (p : Policy) : Policy := { p with signature := none }

/-- The members of the fields, in order. -/
def known (p : Policy) : Members :=
  [("policyVersion", .string p.version),
    ("securityLabel", .object p.label.view),
    ("policyAssertions", .array p.assertions)]
    ++ match p.signature with
      | some block => [(signatureField, .object block.view)]
      | none => []

def view (p : Policy) : Members := p.extensions.foldl (fun ms m => Members.put ms m.1 m.2) p.known

/-- The members of the document the policy is written as. -/
def members (p : Policy) : Members :=
  match p.received with
  | some received => overlay received p.view
  | none => p.view

def document (p : Policy) : Json := .object p.members

/-- Policies are the same when their documents are. -/
def same (p q : Policy) : Bool := p.document.same q.document

end Policy

end PolicySeal
