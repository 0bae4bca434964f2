import PolicySeal.Config.Trust
/-
  PolicySeal.Trust.Paths — where the three tiers of a node are.

  A node without an instance code, or with the code of the hub, is the hub and uses the hub's
  directory. Any other node is a spoke and uses its own directory if there is one. A location
  set for a file wins over the derived one, file by file.
-/

namespace PolicySeal

open Json

inductive Role where
  | hub
  | spoke (code : String)
  deriving DecidableEq

structure TrustPaths where
  role : Role
  /-- The directory the derived locations are under. -/
  baseDir : Path
  rootCert : Path
  rootKey : Path
  intermediateCert : Path
  intermediateKey : Path
  signingCert : Path
  signingKey : Path
  chain : Path
  deriving DecidableEq

namespace Role

def text : Role → String
  | hub => "hub"
  | spoke code => "spoke (" ++ code ++ ")"

def toJson : Role → Json
  | hub => .object [("role", .string "hub")]
  | spoke code => .object [("role", .string "spoke"), ("instance_code", .string code)]

/-- Codes are compared without white space around them and without regard to case. -/
def ofConfig (c : TrustConfig) : Role :=
  match c.instanceCode.map Text.trim with
  | none => hub
  | some code =>
    if code = "" ∨ Text.sameLetters code (Text.trim c.hubInstanceCode) then hub else spoke (Text.upper code)

end Role

namespace TrustPaths

def layout (role : Role) (base : Path) : TrustPaths :=
  let ca := base.child "ca"
  let signing := base.child "signing"
  { role
    baseDir := base
    rootCert := ca.child "root.crt"
    rootKey := ca.child "root.key"
    intermediateCert := ca.child "intermediate.crt"
    intermediateKey := ca.child "intermediate.key"
    signingCert := signing.child "policy-signer.crt"
    signingKey := signing.child "policy-signer.key"
    chain := ca.child "chain.pem" }

/-- The standard layout under a directory. -/
def under (dir : Path) : TrustPaths := layout .hub dir

def entries (p : TrustPaths) : List (String × Path) :=
  [("root_cert", p.rootCert), ("root_key", p.rootKey), ("intermediate_cert", p.intermediateCert),
    ("intermediate_key", p.intermediateKey), ("signing_cert", p.signingCert), ("signing_key", p.signingKey),
    ("chain", p.chain)]

/-- The directory of a spoke's own hierarchy. -/
def localDir (c : TrustConfig) (code : String) : Path := (c.instancesDir.child (Text.lower code)).child "certs"

/-- The directory the locations are derived from; `isDir` says which directories there are. -/
def base (c : TrustConfig) (isDir : Path → Bool) : Path :=
  match Role.ofConfig c with
  | .hub => c.pkiDir
  | .spoke code => if isDir (localDir c code) then localDir c code else c.pkiDir

def resolve (c : TrustConfig) (isDir : Path → Bool) : TrustPaths :=
  let p := layout (Role.ofConfig c) (base c isDir)
  let o := c.overrides
  { p with
    rootCert := o.rootCert.getD p.rootCert
    rootKey := o.rootKey.getD p.rootKey
    intermediateCert := o.intermediateCert.getD p.intermediateCert
    intermediateKey := o.intermediateKey.getD p.intermediateKey
    signingCert := o.signingCert.getD p.signingCert
    signingKey := o.signingKey.getD p.signingKey
    chain := o.chain.getD p.chain }

def toJson (p : TrustPaths) : Json :=
  .object (("role", p.role.toJson) :: ("base_dir", .string p.baseDir.text)
    :: p.entries.map fun e => (e.1, .string e.2.text))

end TrustPaths

end PolicySeal
