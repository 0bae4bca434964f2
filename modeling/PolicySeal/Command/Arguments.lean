import PolicySeal.Config.Environment
import PolicySeal.Scheme
import PolicySeal.Path
/-
  PolicySeal.Command.Arguments — the command line: commands, their options and operands.

  Options begin with two hyphens, or with one and a letter; a value stands after `=` or in the
  next argument, which must not begin with a hyphen itself. An option may be given once. After
  `--` everything is an operand.
-/

namespace PolicySeal

structure SignOptions where
  file : Path
  /-- The variable that holds the secret to sign with. -/
  secretVariable : Option String
  algorithm : Option Hash
  signerId : Option String
  out : Option Path
  deriving DecidableEq

inductive Command where
  | paths (json : Bool)
  | validateChain (json : Bool)
  | listCertificates (json : Bool)
  | sign (options : SignOptions)
  | verify (files : List Path) (json : Bool)
  | initialise (dir : Path) (keyBits : Nat) (force : Bool)
  | version
  deriving DecidableEq

/-- Why no command is to be carried out. -/
inductive NoCommand where
  | help
  | programVersion
  | misused
  deriving DecidableEq

namespace Arguments

structure Flag where
  long : String
  short : Option Char := none
  takesValue : Bool := false

/-- The options given so far, with their values, and the operands. -/
structure Given where
  options : List (String × String) := []
  operands : List String := []

namespace Given

def has (g : Given) (name : String) : Bool := (g.options.lookup name).isSome

def add (g : Given) (flag : Flag) (value : String) : Except NoCommand Given :=
  if g.has flag.long then .error .misused else .ok { g with options := g.options ++ [(flag.long, value)] }

def operand (g : Given) (s : String) : Given := { g with operands := g.operands ++ [s] }

end Given

/-- What one argument asks for. -/
inductive Reading where
  | operand
  | rest
  | flag (f : Flag)
  | valued (f : Flag) (value : String)
  | awaiting (f : Flag)
  | stop (reason : NoCommand)

def long (flags : List Flag) (cs : List Char) : Reading :=
  let name := String.ofList (cs.takeWhile (· != '='))
  if name = "help" then .stop .help
  else
    match flags.find? (·.long == name), cs.dropWhile (· != '=') with
    | some f, [] => if f.takesValue then .awaiting f else .flag f
    | some f, _ :: value => if f.takesValue then .valued f (String.ofList value) else .stop .misused
    | none, _ => .stop .misused

/-- Letters after one hyphen: the last one may have a value. -/
def short (flags : List Flag) (c : Char) (cs : List Char) : Reading :=
  if c = 'h' then .stop .help
  else
    match flags.find? (·.short == some c), cs with
    | some f, [] => if f.takesValue then .awaiting f else .flag f
    | some f, '=' :: value => if f.takesValue then .valued f (String.ofList value) else .stop .misused
    | some f, value => if f.takesValue then .valued f (String.ofList value) else .stop .misused
    | none, _ => .stop .misused

def reading (flags : List Flag) (arg : String) : Reading :=
  match arg.toList with
  | ['-', '-'] => .rest
  | '-' :: '-' :: cs => long flags cs
  | '-' :: c :: cs => short flags c cs
  | _ => .operand

def mayBeValue (arg : String) : Bool := arg = "-" || !(arg.toList.head? == some '-')

def scan (flags : List Flag) (g : Given) : List String → Except NoCommand Given
  | [] => .ok g
  | arg :: rest =>
    match reading flags arg with
    | .operand => scan flags (g.operand arg) rest
    | .rest => .ok { g with operands := g.operands ++ rest }
    | .flag f => do scan flags (← g.add f "") rest
    | .valued f value => do scan flags (← g.add f value) rest
    | .stop reason => .error reason
    | .awaiting f =>
      match rest with
      | [] => .error .misused
      | value :: rest => if mayBeValue value then do scan flags (← g.add f value) rest else .error .misused

/-! ## Values -/

/-- A path has at least one character. -/
def path (s : String) : Except NoCommand Path := if s.isEmpty then .error .misused else .ok ⟨s⟩

def optional {α : Type} (read : String → Except NoCommand α) : Option String → Except NoCommand (Option α)
  | none => .ok none
  | some s => (read s).map some

def algorithm (s : String) : Except NoCommand Hash := (Hash.ofName? s).mapError fun _ => .misused

def number (s : String) : Except NoCommand Nat :=
  match Environment.number? s with
  | some n => .ok n
  | none => .error .misused

def noOperands (g : Given) : Except NoCommand Unit := if g.operands.isEmpty then .ok () else .error .misused

/-! ## Commands -/

def json : Flag := { long := "json" }

/-- A command whose only option is the form of its output. -/
def plain (command : Bool → Command) (args : List String) : Except NoCommand Command := do
  let g ← scan [json] {} args
  noOperands g
  return command (g.has "json")

def signFlags : List Flag :=
  [{ long := "hmac-secret-env", takesValue := true }, { long := "algorithm", takesValue := true },
    { long := "signer-id", takesValue := true }, { long := "out", short := some 'o', takesValue := true }]

def sign (args : List String) : Except NoCommand Command := do
  let g ← scan signFlags {} args
  match g.operands with
  | [file] =>
    let options : SignOptions := {
      file := ← path file
      secretVariable := g.options.lookup "hmac-secret-env"
      algorithm := ← optional algorithm (g.options.lookup "algorithm")
      signerId := g.options.lookup "signer-id"
      out := ← optional path (g.options.lookup "out") }
    if options.signerId.isSome ∧ options.secretVariable.isNone then throw .misused
    return .sign options
  | _ => throw .misused

def verify (args : List String) : Except NoCommand Command := do
  let g ← scan [json] {} args
  if g.operands.isEmpty then throw .misused
  return .verify (← g.operands.mapM path) (g.has "json")

def initialiseFlags : List Flag :=
  [{ long := "dir", takesValue := true }, { long := "key-bits", takesValue := true },
    { long := "force", short := some 'f' }]

def standardKeyBits : Nat := 3072

/-- The directory may come from the environment. -/
def initialise (env : Environment) (args : List String) : Except NoCommand Command := do
  let g ← scan initialiseFlags {} args
  noOperands g
  match g.options.lookup "dir" <|> env "PKI_DIR" with
  | none => throw .misused
  | some dir =>
    let keyBits ← optional number (g.options.lookup "key-bits")
    return .initialise (← path dir) (keyBits.getD standardKeyBits) (g.has "force")

/-- What comes in place of a command's name. -/
def noName (arg : String) : NoCommand :=
  if arg = "-h" ∨ arg = "--help" ∨ arg = "help" then .help else .misused

def parse (env : Environment) : List String → Except NoCommand Command
  | "paths" :: args => plain .paths args
  | "chain" :: "validate" :: args => plain .validateChain args
  | "certs" :: "list" :: args => plain .listCertificates args
  | "policy" :: "sign" :: args => sign args
  | "policy" :: "verify" :: args => verify args
  | "pki" :: "init" :: args => initialise env args
  | "version" :: args => do
    noOperands (← scan [] {} args)
    return .version
  | ["chain"] => .error .misused
  | ["certs"] => .error .misused
  | ["policy"] => .error .misused
  | ["pki"] => .error .misused
  | "chain" :: arg :: _ => .error (noName arg)
  | "certs" :: arg :: _ => .error (noName arg)
  | "policy" :: arg :: _ => .error (noName arg)
  | "pki" :: arg :: _ => .error (noName arg)
  | "--version" :: _ => .error .programVersion
  | "-V" :: _ => .error .programVersion
  | arg :: _ => .error (noName arg)
  | [] => .error .misused

end Arguments

end PolicySeal
