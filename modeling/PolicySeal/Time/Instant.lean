import PolicySeal.Time.Calendar
/-
  PolicySeal.Time.Instant — points in time, to the millisecond, and their readings.

  An instant counts milliseconds from 1970-01-01T00:00:00Z. Arithmetic on instants fails
  when it leaves the calendar in use (`Instant.add?`, `Instant.sub?`).

  A reading (`Reading`) is what a clock in UTC shows: date, time of day and nanoseconds. Its
  second may be 60, the second that is put in when the clocks are held back.
-/

namespace PolicySeal.Time

/-- A length of time in milliseconds. -/
structure Span where
  millis : Int
  deriving DecidableEq

structure Instant where
  millis : Int
  deriving DecidableEq

structure Reading where
  date : Date
  hour : Nat
  minute : Nat
  second : Nat
  nanosecond : Nat
  deriving DecidableEq

def Span.ofDays (n : Int) : Span := ⟨n * 86400000⟩
def Span.ofMinutes (n : Int) : Span := ⟨n * 60000⟩

/-- Whole days, cut off towards zero. -/
def Span.days (s : Span) : Int := Int.tdiv s.millis 86400000

namespace Instant

instance : LE Instant := ⟨fun a b => a.millis ≤ b.millis⟩
instance : LT Instant := ⟨fun a b => a.millis < b.millis⟩
instance (a b : Instant) : Decidable (a ≤ b) := inferInstanceAs (Decidable (a.millis ≤ b.millis))
instance (a b : Instant) : Decidable (a < b) := inferInstanceAs (Decidable (a.millis < b.millis))

def ofSeconds (s : Int) : Instant := ⟨s * 1000⟩

/-- Whole seconds since the epoch; the part of a second is dropped downwards. -/
def seconds (t : Instant) : Int := t.millis / 1000

def earliest : Instant := ⟨Date.dayNumber ⟨Date.firstYear, 1, 1⟩ * 86400000⟩
def latest : Instant := ⟨(Date.dayNumber ⟨Date.lastYear, 12, 31⟩ + 1) * 86400000 - 1⟩

/-- Within the calendar in use. -/
def inRange (t : Instant) : Bool := earliest ≤ t && t ≤ latest

def add? (t : Instant) (s : Span) : Option Instant :=
  let u : Instant := ⟨t.millis + s.millis⟩
  if u.inRange then some u else none

def sub? (t : Instant) (s : Span) : Option Instant := add? t ⟨-s.millis⟩

/-- The time from `b` to `a`. -/
def since (a b : Instant) : Span := ⟨a.millis - b.millis⟩

/-- The reading of a clock at an instant. -/
def reading (t : Instant) : Reading :=
  let day := t.millis / 86400000
  let rest := (t.millis % 86400000).toNat
  { date := Date.ofDayNumber day
    hour := rest / 3600000
    minute := rest / 60000 % 60
    second := rest / 1000 % 60
    nanosecond := rest % 1000 * 1000000 }

end Instant

/-- The instant of a reading to the millisecond. -/
def Reading.instant (r : Reading) : Instant :=
  ⟨r.date.dayNumber * 86400000 + r.hour * 3600000 + r.minute * 60000 + r.second * 1000 + r.nanosecond / 1000000⟩

end PolicySeal.Time
