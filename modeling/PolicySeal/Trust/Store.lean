import PolicySeal.Rsa.KeyText
import PolicySeal.Trust.Chain
import PolicySeal.Trust.Paths
import PolicySeal.Trust.Work
/-
  PolicySeal.Trust.Store — loading, listing and checking the certificates of a node.

  A certificate is taken from the cache, or read, parsed and kept; one that cannot be read or
  parsed is not kept. Three certificates are always loaded one after the other, so the first
  that fails gives the fault.
-/

namespace PolicySeal.Trust

open Time

/-- Loads the certificate at a path. -/
def load (path : Path) : Work (Except Fault Certificate) :=
  .clock fun now => .evict now <| .lookup path fun
    | some c => .done (.ok c)
    | none => .read path fun
      | .broken => .broken
      | .absent => .done (.error (.certificateNotFound path))
      | .failed message => .done (.error (.unreadable path message))
      | .text s =>
        match Certificate.ofTextAt path s with
        | .ok c => .insert ⟨path, c, now⟩ (.done (.ok c))
        | .error fault => .done (.error fault)

def loadHierarchy (paths : TrustPaths) : Work (Except Fault Hierarchy) := do
  match ← load paths.rootCert with
  | .error fault => return .error fault
  | .ok root =>
    match ← load paths.intermediateCert with
    | .error fault => return .error fault
    | .ok intermediate =>
      match ← load paths.signingCert with
      | .error fault => return .error fault
      | .ok signing => return .ok { root, intermediate, signing }

/-- Validates the hierarchy of a node now. -/
def validate (paths : TrustPaths) (skew : Span) : Work (Except Fault Validation) := do
  match ← loadHierarchy paths with
  | .error fault => return .error fault
  | .ok h => .clock fun now =>
    match validate? h now skew with
    | some v => .done (.ok v)
    | none => .broken

def isOk {ε α : Type} : Except ε α → Bool
  | .ok _ => true
  | .error _ => false

/-- Whether each certificate was issued by the next one, and the root by itself. -/
def isLinked (leaf intermediate root : Certificate) : Bool :=
  isOk (leaf.issuance intermediate) && isOk (intermediate.issuance root) && isOk (root.issuance root)

/-- Whether a certificate chains up to the root of the node. -/
def isChained (paths : TrustPaths) (leaf : Certificate) : Work Bool := do
  match ← load paths.intermediateCert with
  | .error _ => return false
  | .ok intermediate =>
    match ← load paths.rootCert with
    | .error _ => return false
    | .ok root => return isLinked leaf intermediate root

def isTextChained (paths : TrustPaths) (text : String) : Work Bool :=
  match Certificate.ofText text with
  | .ok leaf => isChained paths leaf
  | .error _ => .done false

/-- Reads the private key at a path; keys are not kept. -/
def loadKey (path : Path) : Work (Except Fault Rsa.PrivateKey) :=
  .read path fun
    | .broken => .broken
    | .absent => .done (.error (.keyNotFound path))
    | .failed message => .done (.error (.unreadable path message))
    | .text s => .done (Rsa.PrivateKey.ofText s)

/-! ## Listing -/

/-- What there is at the location of a tier. -/
structure Summary where
  tier : Tier
  path : Path
  certificate : Except Fault Certificate
  /-- When the list was made. -/
  now : Instant

namespace Summary

def daysRemaining (s : Summary) (c : Certificate) : Int := (c.validTo.since s.now).days

def toJson (s : Summary) : Json :=
  let head : List (String × Json) := [("tier", .string s.tier.name), ("path", .string s.path.text)]
  match s.certificate with
  | .ok c =>
    .object (head ++ [("loaded", .bool true), ("subject", .string c.subject), ("issuer", .string c.issuer),
      ("serialNumber", .string c.serialNumber), ("validFrom", .string c.validFrom.reading.text),
      ("validTo", .string c.validTo.reading.text), ("daysRemaining", .number (.ofInt (s.daysRemaining c)))])
  | .error fault => .object (head ++ [("loaded", .bool false), ("error", .string fault.message)])

end Summary

/-- The tiers and their locations, from the root down. -/
def tiers (paths : TrustPaths) : List (Tier × Path) :=
  [(.root, paths.rootCert), (.intermediate, paths.intermediateCert), (.signing, paths.signingCert)]

def summaries (now : Instant) : List (Tier × Path) → Work (List Summary)
  | [] => return []
  | (tier, path) :: rest => do
    let certificate ← load path
    return { tier, path, certificate, now } :: (← summaries now rest)

def list (paths : TrustPaths) : Work (List Summary) := .clock fun now => summaries now (tiers paths)

end PolicySeal.Trust
