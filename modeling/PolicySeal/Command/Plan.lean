import PolicySeal.Files.Tree
import PolicySeal.Issuing.Hierarchy
import PolicySeal.Trust.Work
/-
  PolicySeal.Command.Plan — what a command does to its surroundings, as a sequence of actions.

  A plan reads files, tests paths, asks for the time, asks for new keys and writes files. It can
  be carried out on a machine, or on files held in memory (`Plan.run`).
-/

namespace PolicySeal

open Time

inductive Plan (α : Type) where
  | done (a : α)
  /-- The plan cannot go on. -/
  | broken
  | read (path : Path) (next : Answer → Plan α)
  | isThere (path : Path) (next : Bool → Plan α)
  | isDirectory (path : Path) (next : Bool → Plan α)
  | clock (next : Instant → Plan α)
  /-- A new key of so many bits, if one can be made. -/
  | newKey (bits : Nat) (next : Option KeyMaterial → Plan α)
  /-- The answer is the failure, if there is one; so it is with the next action. -/
  | makeDirectories (path : Path) (next : Option String → Plan α)
  | write (file : OutputFile) (next : Option String → Plan α)

namespace Plan

def bind {α β : Type} : Plan α → (α → Plan β) → Plan β
  | done a, f => f a
  | broken, _ => broken
  | read path next, f => read path fun a => (next a).bind f
  | isThere path next, f => isThere path fun b => (next b).bind f
  | isDirectory path next, f => isDirectory path fun b => (next b).bind f
  | clock next, f => clock fun now => (next now).bind f
  | newKey bits next, f => newKey bits fun k => (next k).bind f
  | makeDirectories path next, f => makeDirectories path fun e => (next e).bind f
  | write file next, f => write file fun e => (next e).bind f

instance : Monad Plan where
  pure := done
  bind := bind

/-! ## Single actions -/

def readText (path : Path) : Plan Answer := read path done
def isThereNow (path : Path) : Plan Bool := isThere path done
def isDirectoryNow (path : Path) : Plan Bool := isDirectory path done
def now : Plan Instant := clock done
def tryNewKey (bits : Nat) : Plan (Option KeyMaterial) := newKey bits done

end Plan

/-- The plan of work on a store that starts with some certificates. -/
def Trust.Work.plan {α : Type} (ttl : Span) : Trust.Work α → Trust.Cache → Plan α
  | done a, _ => .done a
  | broken, _ => .broken
  | clock next, cache => .clock fun now => (next now).plan ttl cache
  | evict now next, cache => next.plan ttl (cache.evict ttl now)
  | lookup path next, cache => (next (cache.lookup path)).plan ttl cache
  | read path next, cache => .read path fun a => (next a).plan ttl cache
  | insert entry next, cache => next.plan ttl (cache.insert entry)

/-! ## In memory -/

/-- Surroundings that a plan can be carried out in. -/
structure Surroundings where
  files : FileTree
  now : Instant
  /-- The keys that will be made. -/
  keys : List KeyMaterial := []

namespace Surroundings

/-- The files after a change, and the failure of the change. -/
def changed (s : Surroundings) (r : Except FileError FileTree) : Option String × Surroundings :=
  match r with
  | .ok files => (none, { s with files })
  | .error e => (some e.message, s)

end Surroundings

/-- Carries out a plan. There is no result where it breaks down; what it did stays. -/
def Plan.run {α : Type} : Plan α → Surroundings → Option α × Surroundings
  | done a, s => (some a, s)
  | broken, s => (none, s)
  | read path next, s => (next (s.files.source path)).run s
  | isThere path next, s => (next (s.files.isThere path)).run s
  | isDirectory path next, s => (next (s.files.isDirectory path)).run s
  | clock next, s => (next s.now).run s
  | newKey _ next, s => (next s.keys.head?).run { s with keys := s.keys.tail }
  | makeDirectories path next, s =>
    let (e, s) := s.changed (s.files.makeDirectories path)
    (next e).run s
  | write file next, s =>
    let (e, s) := s.changed (s.files.write file.path (Text.utf8 file.content) file.isPrivate)
    (next e).run s

/-! ## Writing hierarchies -/

/-- Writes files one after the other, each after the directories above it. -/
def Plan.writeAll : List OutputFile → Plan (Except Fault Unit)
  | [] => .done (.ok ())
  | file :: rest =>
    let write : Plan (Except Fault Unit) := .write file fun
      | some e => .done (.error (.unreadable file.path e))
      | none => writeAll rest
    match file.path.parent? with
    | some above =>
      if above.text.isEmpty then write
      else .makeDirectories above fun
        | some e => .done (.error (.unreadable above e))
        | none => write
    | none => write

end PolicySeal
