import PolicySeal.Bytes
/-
  PolicySeal.Secret — shared secrets, which are never shown.
-/

namespace PolicySeal

structure Secret where
  bytes : Bytes
  deriving DecidableEq

namespace Secret

def ofText (s : String) : Secret := ⟨Text.utf8 s⟩

def isEmpty (s : Secret) : Bool := s.bytes.isEmpty

/-- What may be shown of a secret: how long it is. -/
def redacted (s : Secret) : String := "HmacSecret(<" ++ toString s.bytes.length ++ " bytes redacted>)"

end Secret

end PolicySeal
