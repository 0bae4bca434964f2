import PolicySeal.Certificate
import PolicySeal.Time.Written
/-
  PolicySeal.Trust.Chain — whether three certificates make a chain of trust at a time.

  A certificate may be outside its dates by a tolerance. Beyond it there is an error, within it
  a warning, and a warning too when less than thirty days are left. The signing certificate has
  to be issued by the intermediate one, that by the root, and the root by itself; names that do
  not match are only warned of.

  `validate?` has no answer where a date moved by the tolerance leaves the calendar.
-/

namespace PolicySeal.Trust

open Time

inductive Tier where
  | root
  | intermediate
  | signing
  deriving DecidableEq

namespace Tier

def label : Tier → String
  | root => "Root CA"
  | intermediate => "Intermediate CA"
  | signing => "Signing certificate"

def name : Tier → String
  | root => "root"
  | intermediate => "intermediate"
  | signing => "signing"

/-- What a certificate of the tier has to be, as the message says that it is not. -/
def issuanceText : Tier → String
  | root => "Root CA is not self-signed"
  | intermediate => "Intermediate CA not issued by Root CA"
  | signing => "Signing certificate not issued by Intermediate CA"

end Tier

inductive ChainError where
  | notYetValid (tier : Tier) (subject : String) (since : Instant)
  | expired (tier : Tier) (subject : String) (at_ : Instant)
  | notIssued (tier : Tier) (reason : Certificate.NotIssuedBy)
  deriving DecidableEq

inductive ChainWarning where
  | notYetValid (tier : Tier) (subject : String) (since : Instant)
  | expired (tier : Tier) (subject : String) (at_ : Instant)
  | expiresSoon (tier : Tier) (subject : String) (days : Int)
  | otherIssuer (tier : Tier) (issuer : String) (above : Tier) (subject : String)
  deriving DecidableEq

inductive Finding where
  | error (e : ChainError)
  | warning (w : ChainWarning)
  deriving DecidableEq

def notYetValidText (tier : Tier) (subject : String) (since : Instant) : String :=
  tier.label ++ " '" ++ subject ++ "' is not yet valid (valid from " ++ since.words ++ ")"

def expiredText (tier : Tier) (subject : String) (at_ : Instant) : String :=
  tier.label ++ " '" ++ subject ++ "' expired at " ++ at_.words

def toleratedText : String := ", accepted within clock skew tolerance"

def ChainError.message : ChainError → String
  | notYetValid tier subject since => notYetValidText tier subject since
  | expired tier subject at_ => expiredText tier subject at_
  | notIssued tier reason => tier.issuanceText ++ ": " ++ reason.message

def ChainWarning.message : ChainWarning → String
  | notYetValid tier subject since => notYetValidText tier subject since ++ toleratedText
  | expired tier subject at_ => expiredText tier subject at_ ++ toleratedText
  | expiresSoon tier subject days => tier.label ++ " '" ++ subject ++ "' expires in " ++ toString days ++ " days"
  | otherIssuer tier issuer above subject =>
    tier.label ++ " issuer '" ++ issuer ++ "' does not match " ++ above.label ++ " subject '" ++ subject ++ "'"

structure Validation where
  findings : List Finding
  deriving DecidableEq

namespace Validation

def errors (v : Validation) : List ChainError :=
  v.findings.filterMap fun
    | .error e => some e
    | .warning _ => none

def warnings (v : Validation) : List ChainWarning :=
  v.findings.filterMap fun
    | .error _ => none
    | .warning w => some w

def isValid (v : Validation) : Bool := v.errors.isEmpty

def toJson (v : Validation) : Json :=
  .object [("valid", .bool v.isValid), ("errors", Json.strings (v.errors.map ChainError.message)),
    ("warnings", Json.strings (v.warnings.map ChainWarning.message))]

end Validation

/-- The three certificates of a node. -/
structure Hierarchy where
  root : Certificate
  intermediate : Certificate
  signing : Certificate
  deriving DecidableEq

/-- Time left below which there is a warning. -/
def expiryNotice : Span := .ofDays 30

/-- What there is to say about the dates of a certificate: at most one thing. -/
def checkDates? (tier : Tier) (c : Certificate) (now : Instant) (skew : Span) : Option (List Finding) := do
  if now < (← c.validFrom.sub? skew) then
    return [.error (.notYetValid tier c.subject c.validFrom)]
  if (← c.validTo.add? skew) < now then
    return [.error (.expired tier c.subject c.validTo)]
  if now < c.validFrom then
    return [.warning (.notYetValid tier c.subject c.validFrom)]
  if c.validTo < now then
    return [.warning (.expired tier c.subject c.validTo)]
  let left := c.validTo.since now
  return if left.millis < expiryNotice.millis then [.warning (.expiresSoon tier c.subject left.days)] else []

def checkIssuance (tier : Tier) (c issuer : Certificate) : List Finding :=
  match c.issuance issuer with
  | .ok () => []
  | .error reason => [.error (.notIssued tier reason)]

def checkNames (tier : Tier) (c : Certificate) (above : Tier) (issuer : Certificate) : List Finding :=
  if c.issuer = issuer.subject then [] else [.warning (.otherIssuer tier c.issuer above issuer.subject)]

def checkLinks (h : Hierarchy) : List Finding :=
  checkIssuance .signing h.signing h.intermediate ++ checkIssuance .intermediate h.intermediate h.root
    ++ checkIssuance .root h.root h.root
    ++ checkNames .signing h.signing .intermediate h.intermediate
    ++ checkNames .intermediate h.intermediate .root h.root

def validate? (h : Hierarchy) (now : Instant) (skew : Span) : Option Validation := do
  let signing ← checkDates? .signing h.signing now skew
  let intermediate ← checkDates? .intermediate h.intermediate now skew
  let root ← checkDates? .root h.root now skew
  return ⟨signing ++ intermediate ++ root ++ checkLinks h⟩

end PolicySeal.Trust
