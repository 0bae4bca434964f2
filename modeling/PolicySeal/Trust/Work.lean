import PolicySeal.Certificate
import PolicySeal.Files.Answer
/-
  PolicySeal.Trust.Work — work on the store of certificates, as a sequence of actions.

  The store keeps certificates that were read, each under its path with the time of reading,
  and drops those that have been kept for too long. A piece of work says what it does next: it
  asks for the time, drops old entries, looks up a path, reads one, or keeps a certificate. So
  it can be run alone (`Work.run`), or its actions taken between those of other work.
-/

namespace PolicySeal.Trust

open Time

structure CacheEntry where
  path : Path
  certificate : Certificate
  loadedAt : Instant
  deriving DecidableEq

abbrev Cache := List CacheEntry

namespace Cache

def isStale (ttl : Span) (now : Instant) (e : CacheEntry) : Bool := ttl.millis < (now.since e.loadedAt).millis

/-- Drops the entries that have been kept for longer than `ttl`. -/
def evict (ttl : Span) (now : Instant) (c : Cache) : Cache := c.filter fun e => !isStale ttl now e

def lookup (path : Path) (c : Cache) : Option Certificate := (c.find? (·.path.same path)).map (·.certificate)

/-- Keeps an entry in place of one for the same path. -/
def insert (e : CacheEntry) (c : Cache) : Cache := c.filter (fun d => !d.path.same e.path) ++ [e]

end Cache

structure Store where
  source : Source
  /-- How long an entry is kept. -/
  ttl : Span
  now : Instant
  cache : Cache

inductive Work (α : Type) where
  | done (a : α)
  /-- The work cannot go on. -/
  | broken
  | clock (next : Instant → Work α)
  | evict (now : Instant) (next : Work α)
  | lookup (path : Path) (next : Option Certificate → Work α)
  | read (path : Path) (next : Answer → Work α)
  | insert (entry : CacheEntry) (next : Work α)

namespace Work

def bind {α β : Type} : Work α → (α → Work β) → Work β
  | done a, f => f a
  | broken, _ => broken
  | clock next, f => clock fun now => (next now).bind f
  | evict now next, f => evict now (next.bind f)
  | lookup path next, f => lookup path fun c => (next c).bind f
  | read path next, f => read path fun a => (next a).bind f
  | insert entry next, f => insert entry (next.bind f)

instance : Monad Work where
  pure := done
  bind := bind

/-- Goes on without a result where the work breaks down. -/
def attempt {α : Type} : Work α → Work (Option α)
  | done a => done (some a)
  | broken => done none
  | clock next => clock fun now => (next now).attempt
  | evict now next => evict now next.attempt
  | lookup path next => lookup path fun c => (next c).attempt
  | read path next => read path fun a => (next a).attempt
  | insert entry next => insert entry next.attempt

/-- Runs work alone. There is no result where it breaks down; what it did to the store stays. -/
def run {α : Type} : Work α → Store → Option α × Store
  | done a, s => (some a, s)
  | broken, s => (none, s)
  | clock next, s => (next s.now).run s
  | evict now next, s => next.run { s with cache := s.cache.evict s.ttl now }
  | lookup path next, s => (next (s.cache.lookup path)).run s
  | read path next, s => (next (s.source path)).run s
  | insert entry next, s => next.run { s with cache := s.cache.insert entry }

end Work

end PolicySeal.Trust
