import PolicySeal.Policy.Document
/-
  PolicySeal.Policy.Edit — changes to a policy, one field at a time.
-/

namespace PolicySeal

open Json

inductive SignatureField where
  | algorithm
  | value
  | signerId
  | timestamp
  deriving DecidableEq

inductive Edit where
  | version (value : String)
  | classification (value : String)
  | originatingCountry (value : String)
  | coiOperator (value : Option String)
  | creationDate (value : Option String)
  | displayMarking (value : Option String)
  | releasabilityTo (values : List String)
  | coi (values : List String)
  | caveats (values : List String)
  | assertions (items : List Json)
  /-- Sets a member that is not a field, or removes it. -/
  | extension (key : String) (value : Option Json)
  | labelExtension (key : String) (value : Option Json)
  | signature (block : Option SignatureBlock)
  | signatureField (field : SignatureField) (value : String)

def SignatureBlock.set (b : SignatureBlock) (field : SignatureField) (value : String) : SignatureBlock :=
  match field with
  | .algorithm => { b with algorithm := value }
  | .value => { b with value }
  | .signerId => { b with signerId := value }
  | .timestamp => { b with timestamp := value }

namespace Edit

def setMember (ms : Members) (key : String) : Option Json → Members
  | some v => Members.put ms key v
  | none => Members.erase ms key

def onLabel (l : Label) : Edit → Label
  | classification value => { l with classification := value }
  | originatingCountry value => { l with originatingCountry := value }
  | coiOperator value => { l with coiOperator := value }
  | creationDate value => { l with creationDate := value }
  | displayMarking value => { l with displayMarking := value }
  | releasabilityTo values => { l with releasabilityTo := values }
  | coi values => { l with coi := values }
  | caveats values => { l with caveats := values }
  | labelExtension key value => { l with extensions := setMember l.extensions key value }
  | _ => l

def apply (p : Policy) : Edit → Policy
  | version value => { p with version := value }
  | assertions items => { p with assertions := items }
  | extension key value => { p with extensions := setMember p.extensions key value }
  | signature (some block) => p.withSignature block
  | signature none => p.withoutSignature
  | signatureField field value => { p with signature := p.signature.map (·.set field value) }
  | edit => { p with label := onLabel p.label edit }

end Edit

end PolicySeal
