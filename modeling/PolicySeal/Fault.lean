import PolicySeal.Path
/-
  PolicySeal.Fault — what can go wrong with trust material, signing and issuing.

  Each fault has its message and the exit code that the command line ends with: 2 for
  material or configuration that is missing, 3 for material that is malformed, 4 for an
  operation that failed.
-/

namespace PolicySeal

inductive Fault where
  | certificateNotFound (path : Path)
  | keyNotFound (path : Path)
  | unreadable (path : Path) (reason : String)
  | malformedCertificate (path : Path) (reason : String)
  | malformedKey (reason : String)
  | unsupportedKey (reason : String)
  | unsupportedAlgorithm (name : String)
  | notCanonical (reason : String)
  | notSigned (reason : String)
  | notIssued (reason : String)
  | misconfigured (reason : String)
  deriving DecidableEq

namespace Fault

def message : Fault → String
  | certificateNotFound path => "certificate not found: " ++ path.text
  | keyNotFound path => "private key not found: " ++ path.text
  | unreadable path reason => "failed to read " ++ path.text ++ ": " ++ reason
  | malformedCertificate path reason => "invalid certificate " ++ path.text ++ ": " ++ reason
  | malformedKey reason => "invalid private key: " ++ reason
  | unsupportedKey reason => "unsupported key: " ++ reason
  | unsupportedAlgorithm name => "unsupported signature algorithm: " ++ name
  | notCanonical reason => "canonicalization failed: " ++ reason
  | notSigned reason => "signing failed: " ++ reason
  | notIssued reason => "certificate issuance failed: " ++ reason
  | misconfigured reason => "configuration error: " ++ reason

def exitCode : Fault → Nat
  | certificateNotFound _ => 2
  | keyNotFound _ => 2
  | unreadable _ _ => 2
  | misconfigured _ => 2
  | malformedCertificate _ _ => 3
  | malformedKey _ => 3
  | unsupportedKey _ => 3
  | unsupportedAlgorithm _ => 3
  | notCanonical _ => 4
  | notSigned _ => 4
  | notIssued _ => 4

end Fault

end PolicySeal
