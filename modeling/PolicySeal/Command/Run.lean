import PolicySeal.Binding.Service
import PolicySeal.Command.Arguments
import PolicySeal.Command.Plan
import PolicySeal.Json.Printer
/-
  PolicySeal.Command.Run — what the commands do and print.

  A command ends with a code: 0 if all is well, 2 where material is missing or cannot be used,
  3 for a chain that is not valid, 4 where a policy was not accepted. A command that cannot do
  its work says why, and what that was caused by.
-/

namespace PolicySeal

open Trust Time

structure Output where
  code : Nat
  out : String := ""
  err : String := ""
  deriving DecidableEq

/-- Why a command could not do its work: what it tried, and what stood in the way. -/
structure CommandFailure where
  attempt : String
  cause : Option String := none
  deriving DecidableEq

namespace CommandFailure

/-- On one line. -/
def brief (f : CommandFailure) : String :=
  match f.cause with
  | some cause => f.attempt ++ ": " ++ cause
  | none => f.attempt

/-- Every line four columns in. -/
def indented (text : String) : String :=
  "    " ++ String.ofList (text.toList.flatMap fun c => if c = '\n' then "\n    ".toList else [c])

/-- With the cause below. -/
def full (f : CommandFailure) : String :=
  match f.cause with
  | some cause => f.attempt ++ "\n\nCaused by:\n" ++ indented cause
  | none => f.attempt

end CommandFailure

namespace Command

def codeMissing : Nat := 2
def codeInvalidChain : Nat := 3
def codeNotAccepted : Nat := 4

def lines (ls : List String) : String := String.join (ls.map (· ++ "\n"))

def jsonText (v : Json) : String := Json.pretty v ++ "\n"

/-- A label and what it stands for, in two columns. -/
def column (label rest : String) : String :=
  "  " ++ label ++ String.ofList (List.replicate (20 - label.length) ' ') ++ " " ++ rest

/-- Where the certificates of the node are. -/
def resolve (c : TrustConfig) : Plan TrustPaths :=
  match Role.ofConfig c with
  | .hub => return TrustPaths.resolve c fun _ => false
  | .spoke code => do
    let isThere ← Plan.isDirectoryNow (TrustPaths.localDir c code)
    return TrustPaths.resolve c fun _ => isThere

/-! ## Paths -/

def pathLines : List (String × Path) → Plan (List String)
  | [] => return []
  | (label, path) :: rest => do
    let isThere ← Plan.isThereNow path
    return column label (path.text ++ if isThere then "" else "  (missing)") :: (← pathLines rest)

def showPaths (c : TrustConfig) (json : Bool) : Plan Output := do
  let paths ← resolve c
  if json then return { code := 0, out := jsonText paths.toJson }
  else
    let head := ["Role: " ++ paths.role.text, "Base: " ++ paths.baseDir.text]
    return { code := 0, out := lines (head ++ (← pathLines paths.entries)) }

/-! ## Chain -/

def unavailableJson (fault : Fault) : Json :=
  .object [("valid", .bool false), ("errors", Json.strings [fault.message]), ("warnings", .array [])]

def validationText (paths : TrustPaths) (v : Validation) : String :=
  lines (["Trust chain (" ++ paths.role.text ++ "): " ++ if v.isValid then "VALID" else "INVALID"]
    ++ v.errors.map (fun e => "  error:   " ++ e.message) ++ v.warnings.map (fun w => "  warning: " ++ w.message))

def validateChainOutput (paths : TrustPaths) (json : Bool) : Except Fault Validation → Output
  | .error fault =>
    if json then { code := codeMissing, out := jsonText (unavailableJson fault) }
    else { code := codeMissing, err := lines ["error: " ++ fault.message] }
  | .ok v =>
    { code := if v.isValid then 0 else codeInvalidChain
      out := if json then jsonText v.toJson else validationText paths v }

def showChain (c : TrustConfig) (json : Bool) : Plan Output := do
  let paths ← resolve c
  return validateChainOutput paths json (← (validate paths c.skew).plan c.ttl [])

/-! ## Certificates -/

def summaryLines (s : Summary) : List String :=
  (s.tier.label ++ " (" ++ s.path.text ++ ")") ::
    match s.certificate with
    | .error fault => ["  error: " ++ fault.message]
    | .ok c =>
      ["  subject: " ++ c.subject, "  issuer:  " ++ c.issuer, "  serial:  " ++ c.serialNumber,
        "  valid:   " ++ c.validFrom.reading.offsetText ++ " .. " ++ c.validTo.reading.offsetText,
        "  expires in " ++ toString (s.daysRemaining c) ++ " days"]

def showCertificates (c : TrustConfig) (json : Bool) : Plan Output := do
  let paths ← resolve c
  let summaries ← (list paths).plan c.ttl []
  let out := if json then jsonText (.array (summaries.map Summary.toJson)) else lines (summaries.flatMap summaryLines)
  return { code := 0, out }

/-! ## Policies -/

def policyFrom (path : Path) : Answer → Except CommandFailure Policy
  | .text s =>
    (Policy.ofText s).mapError fun e => ⟨"failed to parse policy JSON: " ++ path.text, some e.message⟩
  | .failed message => .error ⟨"failed to read policy file: " ++ path.text, some message⟩
  | _ => .error ⟨"failed to read policy file: " ++ path.text, some absentText⟩

def readPolicy (path : Path) : Plan (Except CommandFailure Policy) := do
  return policyFrom path (← Plan.readText path)

/-- The service of the node that the environment describes. -/
def serviceOf (config : BindingConfig) (trust : TrustConfig) : Plan Service := do
  return { config, paths := ← resolve trust }

def signWithVariable (env : Environment) (trust : TrustConfig) (p : Policy) (h : Hash) (name : String)
    (signerId : Option String) : Plan (Except CommandFailure Policy) := do
  match env name with
  | none => return .error ⟨"HMAC secret variable " ++ name ++ " is not set", some "environment variable not found"⟩
  | some secret =>
    let signerId := signerId.getD (trust.instanceCode.getD trust.hubInstanceCode)
    let signed ← (Service.signWithSecret p (.ofText secret) h signerId).plan trust.ttl []
    return signed.mapError fun fault => ⟨"HMAC signing failed", some fault.message⟩

def signWithNode (config : BindingConfig) (trust : TrustConfig) (p : Policy) :
    Plan (Except CommandFailure Policy) := do
  let service ← serviceOf config trust
  let signed ← (service.signWithDefault p).plan trust.ttl []
  return signed.mapError fun fault => ⟨"X.509 signing failed", some fault.message⟩

/-- Prints a signed policy, or writes it to a file. -/
def deliver (p : Policy) : Option Path → Plan (Except CommandFailure Output)
  | none => return .ok { code := 0, out := jsonText p.document }
  | some out => .write ⟨out, jsonText p.document, false⟩ fun
    | none => .done (.ok { code := 0, err := lines ["Signed policy written to " ++ out.text] })
    | some e => .done (.error ⟨"failed to write signed policy: " ++ out.text, some e⟩)

def signPolicy (env : Environment) (o : SignOptions) : Plan (Except CommandFailure Output) := do
  match ← readPolicy o.file with
  | .error f => return .error f
  | .ok p =>
    let config := BindingConfig.ofEnvironment env
    let config := { config with defaultHash := o.algorithm.getD config.defaultHash }
    let trust := TrustConfig.ofEnvironment env
    let signed ← match o.secretVariable with
      | some name => signWithVariable env trust p config.defaultHash name o.signerId
      | none => signWithNode config trust p
    match signed with
    | .error f => return .error f
    | .ok p => deliver p o.out

def readPolicies : List Path → Plan (List (Except CommandFailure Policy))
  | [] => return []
  | path :: rest => do return (← readPolicy path) :: (← readPolicies rest)

/-- The policies that could be read. -/
def readable (read : List (Except CommandFailure Policy)) : List Policy :=
  read.filterMap fun
    | .ok p => some p
    | .error _ => none

/-- Puts each verdict into the place of its policy; a file that could not be read has its own. -/
def slots : List (Except CommandFailure Policy) → List Verdict → List Verdict
  | [], _ => []
  | .error f :: read, verdicts => .failed .none .invalidDocument f.brief :: slots read verdicts
  | .ok _ :: read, verdict :: verdicts => verdict :: slots read verdicts
  | .ok _ :: read, [] => .failed .none .invalidDocument "no verification result" :: slots read []

def verdictWord (v : Verdict) : String :=
  if !v.valid then "FAILED" else if v.status = .verified then "OK" else "ACCEPTED (not verified)"

def verdictLines (path : Path) (v : Verdict) : List String :=
  [path.text ++ ": " ++ verdictWord v ++ " [" ++ v.mechanism.label ++ "]"]
    ++ (v.error.map fun e => "  error:   " ++ e).toList ++ v.warnings.map (fun w => "  warning: " ++ w)

def verdictsOutput (json : Bool) (results : List (Path × Verdict)) : Output :=
  { code := if results.all (·.2.valid) then 0 else codeNotAccepted
    out :=
      if json then
        jsonText (.array (results.map fun r => .object [("file", .string r.1.text), ("result", r.2.toJson)]))
      else lines (results.flatMap fun r => verdictLines r.1 r.2) }

def verifyPolicies (env : Environment) (files : List Path) (json : Bool) : Plan Output := do
  let read ← readPolicies files
  let trust := TrustConfig.ofEnvironment env
  let service ← serviceOf (BindingConfig.ofEnvironment env) trust
  let verdicts ← (service.verifyAll (readable read)).plan trust.ttl []
  return verdictsOutput json (files.zip (slots read verdicts))

/-! ## A new hierarchy -/

def firstThere : List (String × Path) → Plan (Option Path)
  | [] => return none
  | (_, path) :: rest => do if ← Plan.isThereNow path then return some path else firstThere rest

def notGenerated (message : String) : CommandFailure := ⟨"failed to generate development hierarchy", some message⟩

def hierarchyFailure : HierarchyError → CommandFailure
  | .fault f => notGenerated f.message
  | .outsideCalendar => notGenerated "the clock is outside the calendar"

def generate (o : HierarchyOptions) : Plan (Except CommandFailure IssuedHierarchy) := do
  let now ← Plan.now
  match o.prepare now with
  | .error e => return .error (hierarchyFailure e)
  | .ok _ =>
    match ← Plan.tryNewKey o.keyBits, ← Plan.tryNewKey o.keyBits, ← Plan.tryNewKey o.keyBits with
    | some root, some intermediate, some signing =>
      return (o.generate now root intermediate signing).mapError hierarchyFailure
    | _, _, _ => return .error (notGenerated (Fault.notIssued "RSA key generation failed").message)

def writtenText (paths : TrustPaths) (keyBits : Nat) : String :=
  lines (["Generated development PKI (" ++ toString keyBits ++ "-bit RSA):"]
    ++ paths.entries.map (fun e => column e.1 e.2.text)
    ++ ["", "Private keys are PKCS#8 PEM, mode 0600. Not for production use."])

def initialiseHierarchy (dir : Path) (keyBits : Nat) (force : Bool) : Plan (Except CommandFailure Output) := do
  let paths := TrustPaths.under dir
  let inTheWay ← if force then pure none else firstThere paths.entries
  match inTheWay with
  | some path => return .error { attempt := path.text ++ " already exists (use --force to overwrite)" }
  | none =>
    match ← generate { keyBits } with
    | .error f => return .error f
    | .ok hierarchy =>
      match ← Plan.writeAll (hierarchy.files paths) with
      | .error fault => return .error ⟨"failed to write development hierarchy", some fault.message⟩
      | .ok () => return .ok { code := 0, out := writtenText paths keyBits }

/-! ## All commands -/

def programName : String := "ztdf-bind"
def programVersion : String := "0.4.0"

def usage : List String :=
  ["Usage: " ++ programName ++ " <COMMAND>", "", "Commands:", "  paths [--json]", "  chain validate [--json]",
    "  certs list [--json]",
    "  policy sign FILE [--hmac-secret-env VAR] [--algorithm NAME] [--signer-id ID] [--out FILE]",
    "  policy verify FILE... [--json]", "  pki init --dir DIR [--key-bits N] [--force]", "  version"]

/-- The output of a command that could not do its work. -/
def failed (f : CommandFailure) : Output := { code := codeMissing, err := lines ["fatal: " ++ f.full] }

def orFailed : Except CommandFailure Output → Output
  | .ok o => o
  | .error f => failed f

def run (env : Environment) : Command → Plan Output
  | .paths json => showPaths (.ofEnvironment env) json
  | .validateChain json => showChain (.ofEnvironment env) json
  | .listCertificates json => showCertificates (.ofEnvironment env) json
  | .sign options => return orFailed (← signPolicy env options)
  | .verify files json => verifyPolicies env files json
  | .initialise dir keyBits force => return orFailed (← initialiseHierarchy dir keyBits force)
  | .version => return { code := 0, out := lines [programVersion] }

def withoutCommand : NoCommand → Output
  | .help => { code := 0, out := lines usage }
  | .programVersion => { code := 0, out := lines [programName ++ " " ++ programVersion] }
  | .misused => { code := codeMissing, err := lines (["error: the arguments do not make a command", ""] ++ usage) }

/-- The variables that configure commands. -/
def configuring : List String :=
  ["PKI_DIR", "PKI_INSTANCES_DIR", "INSTANCE_CODE", "PKI_HUB_INSTANCE_CODE", "PKI_ROOT_CA_PATH",
    "PKI_ROOT_CA_KEY_PATH", "PKI_INTERMEDIATE_CA_PATH", "PKI_INTERMEDIATE_CA_KEY_PATH", "PKI_SIGNING_CERT_PATH",
    "PKI_SIGNING_KEY_PATH", "PKI_CHAIN_PATH", "PKI_CERTIFICATE_CACHE_TTL_MS", "PKI_CLOCK_SKEW_TOLERANCE_MS",
    "POLICY_SIGNATURE_CERT_PATH", "POLICY_SIGNATURE_HMAC_SECRET", "POLICY_SIGNATURE_ALGORITHM",
    "POLICY_SIGNATURE_VERIFY_CHAIN", "POLICY_BINDING_PROFILE", "POLICY_VERIFY_CONCURRENCY"]

/-- The variables that a command line names itself. -/
def variablesOf (env : Environment) (args : List String) : List String :=
  match Arguments.parse env args with
  | .ok (.sign options) => options.secretVariable.toList
  | _ => []

/-- Carries out a command line. -/
def ofArguments (env : Environment) (args : List String) : Plan Output :=
  match Arguments.parse env args with
  | .ok command => command.run env
  | .error reason => return withoutCommand reason

/-- The output where a plan broke down. -/
def brokenDown : Output := { code := 101, err := lines ["the command broke down"] }

end Command

end PolicySeal
