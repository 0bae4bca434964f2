import PolicySeal.Fault
import PolicySeal.Text.Blank
/-
  PolicySeal.Scheme — how a signature block says it is to be checked.

  The name in the block decides: `SHA384` and `SHA512` are RSA signatures under a
  certificate, `hmac`, `sha384` and `sha512` are keyed hashes, and `auto` leaves it open.
  Case matters here. The names of hashes in configuration are read loosely.
-/

namespace PolicySeal

inductive Hash where
  | sha384
  | sha512
  deriving DecidableEq

inductive Scheme where
  | x509 (hash : Hash)
  | hmac (hash : Hash)
  | auto
  deriving DecidableEq

namespace Hash

def x509Name : Hash → String
  | sha384 => "SHA384"
  | sha512 => "SHA512"

def hmacName : Hash → String
  | sha384 => "sha384"
  | sha512 => "sha512"

/-- Reads a name in any case, with hyphens anywhere. -/
def ofName? (name : String) : Except Fault Hash :=
  match (name.toList.map Char.toLower).filter (· != '-') |> String.ofList with
  | "sha384" => .ok sha384
  | "sha512" => .ok sha512
  | _ => .error (.unsupportedAlgorithm name)

end Hash

namespace Scheme

def name : Scheme → String
  | x509 h => h.x509Name
  | hmac h => h.hmacName
  | auto => "auto"

def hash? : Scheme → Option Hash
  | x509 h => some h
  | hmac h => some h
  | auto => none

/-- Reads the name in a signature block. The bare `hmac` stands for SHA-384. -/
def ofName? : String → Except Fault Scheme
  | "SHA384" => .ok (x509 .sha384)
  | "SHA512" => .ok (x509 .sha512)
  | "hmac" => .ok (hmac .sha384)
  | "sha384" => .ok (hmac .sha384)
  | "sha512" => .ok (hmac .sha512)
  | "auto" => .ok auto
  | other => .error (.unsupportedAlgorithm other)

end Scheme

end PolicySeal
