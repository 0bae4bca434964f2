import PolicySeal.Command.Run
import PolicySeal.Rsa.Generation
import Std.Time.DateTime.Timestamp
/-
  PolicySeal.Main — the program: carries out a command line on the machine it runs on.
-/

namespace PolicySeal.Machine

open Time

/-- What the system says about a failure. -/
def reason : IO.Error → String
  | .alreadyExists _ code details | .otherError code details | .resourceBusy code details
  | .resourceVanished code details | .unsupportedOperation code details | .hardwareFault code details
  | .unsatisfiedConstraints code details | .illegalOperation code details | .protocolError code details
  | .timeExpired code details | .interrupted _ code details | .noFileOrDirectory _ code details
  | .invalidArgument _ code details | .permissionDenied _ code details | .resourceExhausted _ code details
  | .inappropriateType _ code details | .noSuchThing _ code details =>
    details ++ " (os error " ++ toString code ++ ")"
  | .unexpectedEof => "unexpected end of file"
  | .userError message => message

def isAbsence (e : IO.Error) : Bool := reason e == absentText

def isThere (path : Path) : IO Bool := (System.mkFilePath [path.text]).pathExists

def isDirectory (path : Path) : IO Bool := (System.mkFilePath [path.text]).isDir

def read (path : Path) : IO Answer := do
  try
    match Text.ofUtf8? (← IO.FS.readBinFile path.text).toList with
    | some s => return .text s
    | none => return .failed FileError.notText.message
  catch e => return if isAbsence e then .absent else .failed (reason e)

/-- Does something to files; the answer is the failure, if there is one. -/
def failureOf (act : IO Unit) : IO (Option String) := do
  try
    act
    return none
  catch e => return some (reason e)

def makeDirectory (path : Path) : IO Unit := do
  try IO.FS.createDir path.text
  catch e => unless ← isDirectory path do throw e

/-- Makes a directory after at most `fuel` of those above it. -/
def makeDirectories : Nat → Path → IO Unit
  | 0, path => makeDirectory path
  | fuel + 1, path => do
    try makeDirectory path
    catch e =>
      match path.parent? with
      | some above =>
        if isAbsence e && !above.text.isEmpty then
          makeDirectories fuel above
          makeDirectory path
        else throw e
      | none => throw e

def write (file : OutputFile) : IO Unit := do
  IO.FS.writeBinFile file.path.text ⟨(Text.utf8 file.content).toArray⟩
  if file.isPrivate then
    IO.setAccessRights file.path.text ⟨⟨true, true, false⟩, ⟨false, false, false⟩, ⟨false, false, false⟩⟩

def now : IO Instant := do
  return ⟨(← Std.Time.Timestamp.now).toMillisecondsSinceUnixEpoch.val⟩

def randomNumber (bytes : Nat) : IO Nat := do
  return Bytes.toNat (← IO.getRandomBytes (USize.ofNat bytes)).toList

def newKey (bits : Nat) : IO (Option KeyMaterial) := do
  let first ← randomNumber (bits / 8 + 8)
  let second ← randomNumber (bits / 8 + 8)
  let serial ← IO.getRandomBytes 16
  match Rsa.PrivateKey.ofRandom? bits first second with
  | none => return none
  | some key => return some { key, random := .ofFn fun i => serial.toList.getD i.val 0 }

/-- Carries out a plan. -/
def perform {α : Type} : Plan α → IO (Option α)
  | .done a => return some a
  | .broken => return none
  | .read path next => do perform (next (← read path))
  | .isThere path next => do perform (next (← isThere path))
  | .isDirectory path next => do perform (next (← isDirectory path))
  | .clock next => do perform (next (← now))
  | .newKey bits next => do perform (next (← newKey bits))
  | .makeDirectories path next => do perform (next (← failureOf (makeDirectories path.text.length path)))
  | .write file next => do perform (next (← failureOf (write file)))

/-- The values of some variables. -/
def environment (names : List String) : IO Environment := do
  let vars ← names.filterMapM fun name => do return (← IO.getEnv name).map fun value => (name, value)
  return .ofList vars

end PolicySeal.Machine

open PolicySeal

def main (args : List String) : IO UInt32 := do
  let env ← Machine.environment Command.configuring
  let env ← Machine.environment (Command.configuring ++ Command.variablesOf env args)
  let output := (← Machine.perform (Command.ofArguments env args)).getD Command.brokenDown
  IO.print output.out
  IO.eprint output.err
  return UInt32.ofNat output.code
