import PolicySeal.Bytes
import PolicySeal.Files.Answer
/-
  PolicySeal.Files.Tree — files and directories held in memory.

  A tree knows every file and directory by the names from the root down, and the directory that
  relative paths start from. Reading, testing, writing and making directories go by the rules of
  an operating system, and fail with its messages.
-/

namespace PolicySeal

inductive FileError where
  | absent
  | inTheWay
  | notDirectory
  | isDirectory
  | nameTooLong
  | zeroInName
  | notText
  deriving DecidableEq

def FileError.message : FileError → String
  | absent => absentText
  | inTheWay => "File exists (os error 17)"
  | notDirectory => "Not a directory (os error 20)"
  | isDirectory => "Is a directory (os error 21)"
  | nameTooLong => "File name too long (os error 36)"
  | zeroInName => "file name contained an unexpected NUL byte"
  | notText => "stream did not contain valid UTF-8"

inductive FileEntry where
  | directory
  | file (content : Bytes) (isPrivate : Bool)
  deriving DecidableEq

/-- The names from the root down. -/
abbrev Location := List String

structure FileTree where
  /-- Where relative paths start. -/
  here : Location := []
  entries : List (Location × FileEntry) := []
  deriving DecidableEq

namespace FileTree

def maxName : Nat := 255
def maxPath : Nat := 4095

/-- The root is always there. -/
def entry? (t : FileTree) (l : Location) : Option FileEntry :=
  if l = [] then some .directory else t.entries.lookup l

def put (t : FileTree) (l : Location) (e : FileEntry) : FileTree :=
  { t with entries := t.entries.filter (·.1 != l) ++ [(l, e)] }

/-- The place that one part of a path leads to from a directory. -/
def step (l : Location) : Path.Part → Location
  | .root => []
  | .here => l
  | .parent => l.dropLast
  | .name n => l ++ [n]

/-- Follows parts through directories; the place they lead to may be empty. -/
def walk (t : FileTree) : Location → List Path.Part → Except FileError Location
  | l, [] => .ok l
  | l, part :: rest =>
    match t.entry? l with
    | none => .error .absent
    | some (.file _ _) => .error .notDirectory
    | some .directory =>
      match part with
      | .name n => if maxName < n.utf8ByteSize then .error .nameTooLong else t.walk (step l part) rest
      | _ => t.walk (step l part) rest

def checkPath (p : Path) : Except FileError Unit :=
  if p.text.isEmpty then .error .absent
  else if maxPath < p.text.utf8ByteSize then .error .nameTooLong
  else if p.text.toList.contains '\x00' then .error .zeroInName
  else .ok ()

/-- A path that can only be that of a directory. -/
def asksForDirectory (p : Path) : Bool :=
  match p.text.toList.reverse with
  | '/' :: _ => true
  | '.' :: '/' :: _ => true
  | _ => false

/-- What there is at a path. -/
def find (t : FileTree) (p : Path) : Except FileError FileEntry := do
  checkPath p
  match t.entry? (← t.walk t.here p.parts) with
  | none => throw .absent
  | some (.file content isPrivate) =>
    if asksForDirectory p then throw .notDirectory else return .file content isPrivate
  | some .directory => return .directory

def isThere (t : FileTree) (p : Path) : Bool :=
  match t.find p with
  | .ok _ => true
  | .error _ => false

def isDirectory (t : FileTree) (p : Path) : Bool :=
  match t.find p with
  | .ok .directory => true
  | _ => false

def read (t : FileTree) (p : Path) : Except FileError Bytes := do
  match ← t.find p with
  | .directory => throw .isDirectory
  | .file content _ => return content

def readText (t : FileTree) (p : Path) : Except FileError String := do
  match Text.ofUtf8? (← t.read p) with
  | some s => return s
  | none => throw .notText

/-- The files as a source of texts. -/
def source (t : FileTree) : Source := fun p =>
  match t.readText p with
  | .ok s => .text s
  | .error .absent => .absent
  | .error e => .failed e.message

/-! ## Writing -/

/-- Makes the directories that parts lead through and to. -/
def makeAlong (t : FileTree) : Location → List Path.Part → Except FileError FileTree
  | _, [] => .ok t
  | l, part :: rest =>
    let next := step l part
    match t.entry? next, part with
    | none, .name n =>
      if maxName < n.utf8ByteSize then .error .nameTooLong else (t.put next .directory).makeAlong next rest
    | some (.file _ _), _ => .error (if rest.isEmpty then .inTheWay else .notDirectory)
    | _, _ => t.makeAlong next rest

/-- Makes a directory and those above it. -/
def makeDirectories (t : FileTree) (p : Path) : Except FileError FileTree := do
  checkPath p
  t.makeAlong t.here p.parts

/-- Writes a file into a directory that is there. -/
def write (t : FileTree) (p : Path) (content : Bytes) (isPrivate : Bool) : Except FileError FileTree := do
  checkPath p
  let l ← t.walk t.here p.parts
  match t.entry? l with
  | some .directory => throw .isDirectory
  | some (.file _ _) => if asksForDirectory p then throw .notDirectory
  | none => if asksForDirectory p then throw .isDirectory
  return t.put l (.file content isPrivate)

def remove (t : FileTree) (p : Path) : Except FileError FileTree := do
  checkPath p
  let l ← t.walk t.here p.parts
  match t.entry? l with
  | some (.file _ _) => return { t with entries := t.entries.filter (·.1 != l) }
  | some .directory => throw .isDirectory
  | none => throw .absent

end FileTree

end PolicySeal
