import PolicySeal.Policy.Document
import PolicySeal.Json.Printer
import PolicySeal.Digest.Hmac
/-
  PolicySeal.Policy.Canonical — the bytes of a policy that are signed.

  The canonical form of a document is its compact text without the signature block, the
  members at the top level in the order of their keys. Members further down stay in the
  order of the document.
-/

namespace PolicySeal

open Json

namespace Canonical

/-- Order by code points, which is the order of the UTF-8 bytes. -/
def keyLE (a b : String × Json) : Bool := decide (a.1 ≤ b.1)

/-- The signed members, in order. -/
def members (ms : Members) : Members :=
  (ms.filter fun m => m.1 != signatureField).mergeSort keyLE

def text (ms : Members) : String := compact (.object (members ms))

/-- The canonical text of a document. -/
def ofDocument (v : Json) : Except Fault String :=
  match v with
  | .object ms => .ok (text ms)
  | _ => .error (.notCanonical "policy must be a JSON object")

end Canonical

def Policy.canonical (p : Policy) : String := Canonical.text p.members

/-- The bytes that are signed. -/
def Policy.signedBytes (p : Policy) : Bytes := Text.utf8 p.canonical

/-- The digest of the signed bytes, as logs and audits name it. -/
def Policy.digest (p : Policy) : String := "sha384:" ++ Bytes.hex (Digest.sha384 p.signedBytes)

end PolicySeal
