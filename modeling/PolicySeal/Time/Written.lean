import PolicySeal.Time.Instant
import PolicySeal.Text.Blank
/-
  PolicySeal.Time.Written — how times are written and read.

  - `stamp`: `2026-01-01T00:00:00.000Z`, always with milliseconds, for signature blocks;
  - `Reading.text`: RFC 3339 in UTC, with a fraction of 3, 6 or 9 digits only if there is one;
  - `Instant.words`: `2026-01-01 00:00:00 UTC`, for messages;
  - `Reading.ofText?` reads RFC 3339, and less strictly: blanks before a number, `t` or a blank
    between date and time, any number of digits of a fraction, any offset below a day.

  A year has four digits; one outside 0 to 9999 has a sign as well.
-/

namespace PolicySeal.Time

/-! ## Writing -/

def padded (width n : Nat) : List Char :=
  let ds := Nat.toDigits 10 n
  List.replicate (width - ds.length) '0' ++ ds

def yearText (y : Int) : List Char :=
  (if y < 0 then ['-'] else if 9999 < y then ['+'] else []) ++ padded 4 y.natAbs

def Date.text (d : Date) : List Char :=
  yearText d.year ++ '-' :: padded 2 d.month ++ '-' :: padded 2 d.day

/-- The fraction of a second with as many groups of three digits as it needs. -/
def fractionText (nanosecond : Nat) : List Char :=
  if nanosecond = 0 then []
  else if nanosecond % 1000000 = 0 then '.' :: padded 3 (nanosecond / 1000000)
  else if nanosecond % 1000 = 0 then '.' :: padded 6 (nanosecond / 1000)
  else '.' :: padded 9 nanosecond

def Reading.clockText (r : Reading) : List Char :=
  padded 2 r.hour ++ ':' :: padded 2 r.minute ++ ':' :: padded 2 r.second

def Reading.text (r : Reading) : String :=
  String.ofList (r.date.text ++ 'T' :: r.clockText ++ fractionText r.nanosecond ++ ['Z'])

/-- RFC 3339 with the offset in digits. -/
def Reading.offsetText (r : Reading) : String :=
  String.ofList (r.date.text ++ 'T' :: r.clockText ++ fractionText r.nanosecond ++ "+00:00".toList)

def Instant.words (t : Instant) : String :=
  let r := t.reading
  String.ofList (r.date.text ++ ' ' :: r.clockText ++ fractionText r.nanosecond ++ " UTC".toList)

def Instant.stamp (t : Instant) : String :=
  let r := t.reading
  String.ofList (r.date.text ++ 'T' :: r.clockText ++ '.' :: padded 3 (r.nanosecond / 1000000) ++ ['Z'])

/-! ## Reading -/

/-- Why a text is not a time. -/
inductive WrittenError where
  | outOfRange
  | impossible
  | invalid
  | tooShort
  | tooLong
  deriving DecidableEq

def WrittenError.message : WrittenError → String
  | outOfRange => "input is out of range"
  | impossible => "no possible date and time matching input"
  | invalid => "input contains invalid characters"
  | tooShort => "premature end of input"
  | tooLong => "trailing input"

namespace Written

/-- A step reads from the head of a text and leaves the rest. -/
abbrev Step (α : Type) := StateT (List Char) (Except WrittenError) α

def skipBlanks : Step Unit := modify Text.trimStartChars

/-- One to `width` digits. -/
def digits (width : Nat) : Step (List Char) := do
  let cs ← get
  match cs with
  | [] => throw .tooShort
  | c :: _ =>
    if !c.isDigit then throw .invalid
    let ds := (cs.take width).takeWhile Char.isDigit
    set (cs.drop ds.length)
    return ds

def valueOf (ds : List Char) : Nat := ds.foldl (fun n d => 10 * n + (d.toNat - '0'.toNat)) 0

/-- A number of at most `width` digits between `low` and `high`, after any blanks. -/
def number (width low high : Nat) : Step Nat := do
  skipBlanks
  let n := valueOf (← digits width)
  if n < low ∨ high < n then throw .outOfRange
  return n

/-- The character, after any blanks. -/
def literal (c : Char) : Step Unit := do
  skipBlanks
  match ← get with
  | [] => throw .tooShort
  | d :: rest => if d = c then set rest else throw .invalid

/-- A year has four digits, or a sign and any number of them. -/
def year : Step Int := do
  skipBlanks
  let cs ← get
  let magnitude (rest : List Char) : Step Nat := do
    set rest
    let n := valueOf (← digits rest.length)
    if 0x80000000 ≤ n then throw .outOfRange
    return n
  match cs with
  | '-' :: rest => return -(← magnitude rest : Int)
  | '+' :: rest => return (← magnitude rest : Int)
  | _ => return valueOf (← digits 4)

/-- Nanoseconds from a fraction; digits after the ninth do not count. -/
def fraction : Step Nat := do
  match ← get with
  | '.' :: rest =>
    set rest
    let ds ← digits 9
    modify (·.dropWhile Char.isDigit)
    return valueOf ds * Nat.pow 10 (9 - ds.length)
  | _ => return 0

def isUtcName (cs : List Char) : Bool :=
  match cs with
  | a :: b :: c :: _ => [a, b, c].map Char.toUpper == ['U', 'T', 'C']
  | _ => false

/-- Two digits with nothing before them. -/
def twoDigits (highTens : Char) : Step Nat := do
  match ← get with
  | a :: b :: rest =>
    if !(a.isDigit && b.isDigit) then throw .invalid
    if highTens < a then throw .outOfRange
    set rest
    return valueOf [a, b]
  | [a] => if a.utf8Size < 2 then throw .tooShort else throw .invalid
  | [] => throw .tooShort

/-- The offset from UTC in minutes: a name of zero, or a sign, hours and minutes. -/
def offset : Step Int := do
  skipBlanks
  let cs ← get
  if isUtcName cs then
    set (cs.drop 3)
    return 0
  match cs with
  | [] => throw .tooShort
  | sign :: rest =>
    if sign = 'Z' ∨ sign = 'z' then
      set rest
      return 0
    if sign ≠ '+' ∧ sign ≠ '-' ∧ sign ≠ '\u2212' then throw .invalid
    set rest
    let hours ← twoDigits '9'
    modify (·.dropWhile fun c => c == ':' || Text.isBlank c)
    let minutes ← twoDigits '5'
    let total : Int := (60 * hours + minutes : Nat)
    return if sign = '+' then total else -total

/-- Date, time of day and offset. -/
def parts : Step (Reading × Int) := do
  let year ← year
  literal '-'
  let month ← number 2 1 12
  literal '-'
  let day ← number 2 1 31
  match ← get with
  | [] => throw .tooShort
  | c :: rest => if c = 't' ∨ c = 'T' ∨ c = ' ' then set rest else throw .invalid
  let hour ← number 2 0 23
  literal ':'
  let minute ← number 2 0 59
  literal ':'
  let second ← number 2 0 60
  let nanosecond ← fraction
  let shift ← offset
  skipBlanks
  if !(← get).isEmpty then throw .tooLong
  return ({ date := { year, month, day }, hour, minute, second, nanosecond }, shift)

end Written

/-- The same time on a clock that is `minutes` behind. -/
def Reading.back (r : Reading) (minutes : Int) : Reading :=
  let total : Int := (60 * r.hour + r.minute : Nat) - minutes
  let date := Date.ofDayNumber (r.date.dayNumber + total / 1440)
  let inDay := (total % 1440).toNat
  { r with date, hour := inDay / 60, minute := inDay % 60 }

/-- Reads a time with its offset, and gives the reading in UTC. -/
def Reading.ofText? (text : String) : Except WrittenError Reading := do
  let ((r, shift), _) ← Written.parts.run text.toList
  if !r.date.isValid then throw .outOfRange
  if shift ≤ -1440 ∨ 1440 ≤ shift then throw .outOfRange
  let utc := r.back shift
  if !utc.date.isValid then throw .impossible
  return utc

end PolicySeal.Time
