import PolicySeal.Json.Value
/-
  PolicySeal.Json.Token — the tokens of a JSON text.

  A text is cut into tokens from the left, blanks between them dropped. Numerals keep their
  spelling; strings are decoded. Two tokens carry a fault:
  - `halfPair`, a string with an unpaired surrogate escape: a string in form, without a value;
  - `stray`, always last: from here on the text is not JSON.

  `Token.text` writes a token; `Token.ofText` reads any sequence of written tokens back, with
  blanks in between or not.
-/

namespace PolicySeal.Json

inductive Token where
  | openArray
  | closeArray
  | openObject
  | closeObject
  | comma
  | colon
  | null
  | bool (value : Bool)
  | numeral (spelling : List Char)
  | string (value : String)
  | halfPair
  | stray
  deriving DecidableEq

namespace Token

/-! ## Writing -/

def hexDigit (n : Nat) : Char := Nat.digitChar n

/-- A character inside quotes: quote, backslash and control characters are escaped, the common
ones by a letter. -/
def escaped (c : Char) : List Char :=
  if c = '"' then ['\\', '"']
  else if c = '\\' then ['\\', '\\']
  else if c = '\x08' then ['\\', 'b']
  else if c = '\x0c' then ['\\', 'f']
  else if c = '\n' then ['\\', 'n']
  else if c = '\r' then ['\\', 'r']
  else if c = '\t' then ['\\', 't']
  else if c.toNat < 0x20 then ['\\', 'u', '0', '0', hexDigit (c.toNat / 16), hexDigit (c.toNat % 16)]
  else [c]

def quoted (s : List Char) : List Char := '"' :: (s.flatMap escaped ++ ['"'])

def text : Token → List Char
  | openArray => ['[']
  | closeArray => [']']
  | openObject => ['\x7b']
  | closeObject => ['\x7d']
  | comma => [',']
  | colon => [':']
  | null => ['n', 'u', 'l', 'l']
  | bool true => ['t', 'r', 'u', 'e']
  | bool false => ['f', 'a', 'l', 's', 'e']
  | numeral spelling => spelling
  | string value => quoted value.toList
  | halfPair => []
  | stray => []

/-! ## Strings -/

def hexValue? (c : Char) : Option Nat :=
  if '0' ≤ c ∧ c ≤ '9' then some (c.toNat - '0'.toNat)
  else if 'a' ≤ c ∧ c ≤ 'f' then some (c.toNat - 'a'.toNat + 10)
  else if 'A' ≤ c ∧ c ≤ 'F' then some (c.toNat - 'A'.toNat + 10)
  else none

def hexUnit? (a b c d : Char) : Option Nat := do
  return 0x1000 * (← hexValue? a) + 0x100 * (← hexValue? b) + 0x10 * (← hexValue? c) + (← hexValue? d)

def isHighSurrogate (u : Nat) : Bool := 0xD800 ≤ u && u ≤ 0xDBFF
def isLowSurrogate (u : Nat) : Bool := 0xDC00 ≤ u && u ≤ 0xDFFF

def ofSurrogates (high low : Nat) : Char :=
  Char.ofNat (0x10000 + 0x400 * (high - 0xD800) + (low - 0xDC00))

def letterEscape? : Char → Option Char
  | '"' => some '"'
  | '\\' => some '\\'
  | '/' => some '/'
  | 'b' => some '\x08'
  | 'f' => some '\x0c'
  | 'n' => some '\n'
  | 'r' => some '\r'
  | 't' => some '\t'
  | _ => none

/-- What stands between quotes: characters, and halves of surrogate pairs. -/
inductive Piece where
  | char (c : Char)
  | half (unit : Nat)

def Piece.ofUnit (u : Nat) : Piece :=
  if isHighSurrogate u || isLowSurrogate u then .half u else .char (Char.ofNat u)

/-- Scans a string from after its opening quote to after its closing one; none where it is not one. -/
def scanString : List Char → Option (List Piece × List Char)
  | [] => none
  | '"' :: rest => some ([], rest)
  | '\\' :: 'u' :: a :: b :: c :: d :: rest =>
    match hexUnit? a b c d with
    | none => none
    | some u => (scanString rest).map fun (ps, after) => (.ofUnit u :: ps, after)
  | '\\' :: c :: rest =>
    match letterEscape? c with
    | none => none
    | some x => (scanString rest).map fun (ps, after) => (.char x :: ps, after)
  | c :: rest =>
    if c = '\\' ∨ c.toNat < 0x20 then none
    else (scanString rest).map fun (ps, after) => (.char c :: ps, after)

/-- Joins the halves of pairs; none where a half stands alone. -/
def joinHalves : List Piece → Option (List Char)
  | [] => some []
  | .char c :: rest => (joinHalves rest).map (c :: ·)
  | .half u :: .half v :: rest =>
    if isHighSurrogate u && isLowSurrogate v then (joinHalves rest).map (ofSurrogates u v :: ·) else none
  | .half _ :: _ => none

/-- The token for the pieces of a string. -/
def ofPieces (ps : List Piece) : Token :=
  match joinHalves ps with
  | some cs => string (String.ofList cs)
  | none => halfPair

/-! ## Numerals -/

/-- One digit or more; none where there is none. -/
def scanDigits (cs : List Char) : Option (List Char × List Char) :=
  let ds := cs.takeWhile Char.isDigit
  if ds.isEmpty then none else some (ds, cs.dropWhile Char.isDigit)

/-- The part before the point: a zero alone, or digits that do not start with zero. -/
def scanWhole (cs : List Char) : Option (List Char × List Char) :=
  match scanDigits cs with
  | some ('0' :: _ :: _, _) => none
  | other => other

def scanFraction (cs : List Char) : Option (List Char × List Char) :=
  match cs with
  | '.' :: rest => (scanDigits rest).map fun (ds, after) => ('.' :: ds, after)
  | _ => some ([], cs)

def isSign (c : Char) : Bool := c == '+' || c == '-'

def scanExponent (cs : List Char) : Option (List Char × List Char) :=
  match cs with
  | [] => some ([], [])
  | e :: rest =>
    if e = 'e' ∨ e = 'E' then
      let sign := rest.takeWhile isSign
      if 1 < sign.length then none
      else (scanDigits (rest.drop sign.length)).map fun (ds, after) => (e :: (sign ++ ds), after)
    else some ([], cs)

/-- The numeral at the head of a text, and the text after it. -/
def scanNumeral (cs : List Char) : Option (List Char × List Char) := do
  let sign := if cs.head? == some '-' then ['-'] else []
  let (whole, rest) ← scanWhole (cs.drop sign.length)
  let (fraction, rest) ← scanFraction rest
  let (exponent, rest) ← scanExponent rest
  return (sign ++ whole ++ fraction ++ exponent, rest)

/-! ## Cutting a text into tokens -/

def isBlank (c : Char) : Bool := c == ' ' || c == '\t' || c == '\n' || c == '\r'

/-- The token at the head of a text that starts with `c`, and the text after it; none where the text
is not JSON there. -/
def scan (c : Char) (rest : List Char) : Option (Token × List Char) :=
  match c, rest with
  | '[', _ => some (openArray, rest)
  | ']', _ => some (closeArray, rest)
  | '\x7b', _ => some (openObject, rest)
  | '\x7d', _ => some (closeObject, rest)
  | ',', _ => some (comma, rest)
  | ':', _ => some (colon, rest)
  | 'n', 'u' :: 'l' :: 'l' :: after => some (null, after)
  | 't', 'r' :: 'u' :: 'e' :: after => some (bool true, after)
  | 'f', 'a' :: 'l' :: 's' :: 'e' :: after => some (bool false, after)
  | '"', _ =>
    (scanString rest).map fun (ps, after) => (ofPieces ps, after)
  | _, _ =>
    if c = '-' ∨ c.isDigit then (scanNumeral (c :: rest)).map fun (n, after) => (numeral n, after)
    else none

/-- Cuts at most `fuel` tokens and blanks. -/
def ofTextWithin (fuel : Nat) (cs : List Char) : List Token :=
  match fuel, cs with
  | _, [] => []
  | 0, _ => [stray]
  | fuel + 1, c :: rest =>
    if isBlank c then ofTextWithin fuel rest
    else
      match scan c rest with
      | none => [stray]
      | some (t, after) => t :: ofTextWithin fuel after

/-- The tokens of a text. Each takes at least one character, so its length is fuel enough. -/
def ofText (cs : List Char) : List Token := ofTextWithin cs.length cs

end Token

end PolicySeal.Json
