/-
  PolicySeal.Time.Calendar — days of the Gregorian calendar, extended to all years.

  A date is a year, a month from 1 and a day from 1. `Date.dayNumber` counts days from
  1970-01-01, `Date.ofDayNumber` counts back: the year is estimated from the mean length of
  a year, which is never off by more than one, and then set right.

  The dates of the calendar in use are those of the years -262143 to 262142.
-/

namespace PolicySeal.Time

structure Date where
  year : Int
  month : Nat
  day : Nat
  deriving DecidableEq

namespace Date

def isLeap (year : Int) : Bool := year % 4 == 0 && (year % 100 != 0 || year % 400 == 0)

/-- Days from the first day of year 0 to the first day of a year. -/
def daysToYear (year : Int) : Int :=
  365 * year + (year + 3) / 4 - (year + 99) / 100 + (year + 399) / 400

def monthLengths (year : Int) : List Nat :=
  [31, if isLeap year then 29 else 28, 31, 30, 31, 30, 31, 31, 30, 31, 30, 31]

def epochDay : Int := daysToYear 1970

/-- Days from 1970-01-01. -/
def dayNumber (d : Date) : Int :=
  daysToYear d.year + ((monthLengths d.year).take (d.month - 1)).foldl Nat.add 0 + (d.day - 1 : Nat) - epochDay

/-- The year of a day counted from the first day of year 0. -/
def yearOfDay (n : Int) : Int :=
  let y := 400 * n / 146097
  if n < daysToYear y then y - 1 else if daysToYear (y + 1) ≤ n then y + 1 else y

/-- The month, counted on from `month`, and the day from 1, of a day counted from 0. -/
def inMonths (month : Nat) : List Nat → Nat → Nat × Nat
  | [], day => (month, day + 1)
  | [_], day => (month, day + 1)
  | length :: rest, day => if day < length then (month, day + 1) else inMonths (month + 1) rest (day - length)

def ofDayNumber (n : Int) : Date :=
  let n := n + epochDay
  let year := yearOfDay n
  let (month, day) := inMonths 1 (monthLengths year) (n - daysToYear year).toNat
  { year, month, day }

def firstYear : Int := -262143
def lastYear : Int := 262142

/-- A month of the year and a day of the month, in a year of the calendar in use. -/
def isValid (d : Date) : Bool :=
  firstYear ≤ d.year && d.year ≤ lastYear && 1 ≤ d.month && d.month ≤ 12
    && 1 ≤ d.day && d.day ≤ (monthLengths d.year).getD (d.month - 1) 0

end Date

end PolicySeal.Time
