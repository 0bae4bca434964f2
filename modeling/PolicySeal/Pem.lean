import PolicySeal.Base64
/-
  PolicySeal.Pem — binary documents as text between two boundary lines (RFC 7468, strict form).

  A document is a begin line with its label, lines of base64 and an end line with the same
  label. Each line but the last has 64 symbols; lines end with LF, CRLF or CR; there are no
  headers. Lines before the begin line are passed over, as long as they hold no NUL.

  - `encode` writes a document, `decode?` reads one;
  - `splitAfter` cuts a text of several documents after each end line.
-/

namespace PolicySeal.Pem

def lineWidth : Nat := 64

def lf : UInt8 := 10
def cr : UInt8 := 13

def beginMark : Bytes := Text.utf8 "-----BEGIN "
def dashes : Bytes := Text.utf8 "-----"

def endLine (label : String) : Bytes := Text.utf8 ("-----END " ++ label ++ "-----")

/-! ## Writing -/

/-- A document whose lines end with LF. -/
def encode (label : String) (content : Bytes) : Bytes :=
  let lines := Bytes.chunks lineWidth (Base64.encodeBytes content)
  beginMark ++ Text.utf8 label ++ dashes ++ [lf] ++ lines.flatMap (· ++ [lf]) ++ endLine label ++ [lf]

/-! ## Reading -/

/-- The text from the begin mark on, which stands at the start or after a line end. -/
def fromBeginMark? : Bytes → Option Bytes
  | [] => none
  | b :: rest =>
    if b = 0 then none
    else if (b = lf ∨ b = cr) ∧ beginMark.isPrefixOf rest then some rest
    else fromBeginMark? rest

def skipPreamble? (text : Bytes) : Option Bytes :=
  if beginMark.isPrefixOf text then some text else fromBeginMark? text

/-- The text after a line end at its head. -/
def afterLineEnd? : Bytes → Option Bytes
  | 13 :: 10 :: rest => some rest
  | 10 :: rest => some rest
  | 13 :: rest => some rest
  | _ => none

/-- The text before a line end at its end. -/
def beforeLineEnd? (text : Bytes) : Option Bytes :=
  match text.reverse with
  | 10 :: 13 :: rest => some rest.reverse
  | 10 :: rest => some rest.reverse
  | 13 :: rest => some rest.reverse
  | _ => none

def dropPrefix? (start text : Bytes) : Option Bytes :=
  if start.isPrefixOf text then some (text.drop start.length) else none

def dropSuffix? (tail text : Bytes) : Option Bytes :=
  if tail.isSuffixOf text then some (text.take (text.length - tail.length)) else none

/-- Joins the lines of base64; the last one may be short, and may have a line end left. -/
def joinLinesWithin : Nat → Bytes → Option Bytes
  | 0, _ => some []
  | fuel + 1, text =>
    match text.drop lineWidth with
    | [] => some ((beforeLineEnd? text).getD text)
    | rest => do
      let after ← afterLineEnd? rest
      return text.take lineWidth ++ (← joinLinesWithin fuel after)

def joinLines (text : Bytes) : Option Bytes := joinLinesWithin (text.length + 1) text

/-- The content of a text that is one document with the label. -/
def decode? (label : String) (text : Bytes) : Option Bytes := do
  let text ← skipPreamble? text
  let text ← dropPrefix? (beginMark ++ Text.utf8 label ++ dashes) text
  let body ← afterLineEnd? text
  let body ← dropSuffix? (endLine label) ((beforeLineEnd? body).getD body)
  let symbols ← joinLines (← beforeLineEnd? body)
  (Base64.decode symbols).toOption

/-! ## Several documents in a text -/

/-- The text up to and including the first occurrence of `mark`, and the text after it. -/
def cutAfter? (mark : Bytes) : Bytes → Option (Bytes × Bytes)
  | [] => if mark.isEmpty then some ([], []) else none
  | b :: rest =>
    if mark.isPrefixOf (b :: rest) then some ((b :: rest).take mark.length, (b :: rest).drop mark.length)
    else (cutAfter? mark rest).map fun (front, after) => (b :: front, after)

/-- Cuts after each end line. A single byte at the end does not count; anything else without an end
line makes the whole unreadable. -/
def splitWithin (mark : Bytes) : Nat → Bytes → Option (List Bytes)
  | 0, _ => none
  | fuel + 1, text =>
    if text.length ≤ 1 then some []
    else
      match cutAfter? mark text with
      | none => none
      | some (front, after) =>
        if after.isEmpty then some [front] else (splitWithin mark fuel after).map (front :: ·)

/-- The pieces of a text that each end with the end line of the label. -/
def splitAfter (label : String) (text : Bytes) : Option (List Bytes) :=
  if text.isEmpty then none else splitWithin (endLine label) (text.length + 1) text

end PolicySeal.Pem
