import PolicySeal.Der.Oid
import PolicySeal.Text.Blank
/-
  PolicySeal.X509.AttributeType — the attribute types of distinguished names that have names.

  A type is an object identifier. Those of RFC 4519, the mail address and the pseudonym have
  names, read in any case; the first name in the table is the one that is shown.
-/

namespace PolicySeal.X509

open Der

structure AttributeType where
  oid : Oid
  names : List String

namespace AttributeType

/-- An attribute type of the directory standards. -/
def directory (n : Nat) (names : List String) : AttributeType := ⟨.ofArcs [2, 5, 4, n], names⟩

/-- An attribute type of the directory pilot. -/
def pilot (n : Nat) (names : List String) : AttributeType := ⟨.ofArcs [0, 9, 2342, 19200300, 100, 1, n], names⟩

def known : List AttributeType :=
  [directory 3 ["cn", "commonName"], directory 4 ["sn", "surname"], directory 5 ["serialNumber"],
    directory 6 ["c", "countryName"], directory 7 ["l", "localityName"], directory 8 ["st"], directory 9 ["street"],
    directory 10 ["o", "organizationName"], directory 11 ["ou", "organizationalUnitName"], directory 12 ["title"],
    directory 13 ["description"], directory 14 ["searchGuide"], directory 15 ["businessCategory"],
    directory 16 ["postalAddress"], directory 17 ["postalCode"], directory 18 ["postOfficeBox"],
    directory 19 ["physicalDeliveryOfficeName"], directory 20 ["telephoneNumber"], directory 21 ["telexNumber"],
    directory 22 ["teletexTerminalIdentifier"], directory 23 ["facsimileTelephoneNumber"],
    directory 24 ["x121Address"], directory 25 ["internationalISDNNumber"], directory 26 ["registeredAddress"],
    directory 27 ["destinationIndicator"], directory 28 ["preferredDeliveryMethod"], directory 31 ["member"],
    directory 32 ["owner"], directory 33 ["roleOccupant"], directory 34 ["seeAlso"], directory 35 ["userPassword"],
    directory 41 ["name"], directory 42 ["givenName"], directory 43 ["initials"], directory 44 ["generationQualifier"],
    directory 45 ["x500UniqueIdentifier"], directory 46 ["dnQualifier"], directory 47 ["enhancedSearchGuide"],
    directory 49 ["distinguishedName"], directory 50 ["uniqueMember"], directory 51 ["houseIdentifier"],
    directory 65 ["pseudonym"], pilot 1 ["uid", "userid"], pilot 25 ["dc", "domainComponent"],
    ⟨.ofArcs [1, 2, 840, 113549, 1, 9, 1], ["email", "emailAddress"]⟩]

def country : Oid := .ofArcs [2, 5, 4, 6]
def serialNumber : Oid := .ofArcs [2, 5, 4, 5]
def domainComponent : Oid := .ofArcs [0, 9, 2342, 19200300, 100, 1, 25]

/-- The name that is shown for a type. -/
def shownName? (oid : Oid) : Option String := do
  let t ← known.find? (·.oid == oid)
  return Text.upper (← t.names.head?)

/-- The type with the name, or with the identifier that is written with points. -/
def ofText? (text : String) : Option Oid :=
  match known.find? (·.names.any (Text.sameLetters text)) with
  | some t => some t.oid
  | none => Oid.ofText? text

end AttributeType

end PolicySeal.X509
