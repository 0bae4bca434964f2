/-
  PolicySeal.Text.Blank — white space, and texts without it at their ends.

  White space is what Unicode calls so: the ASCII blanks, the next-line control, the
  no-break and ideographic spaces, and the spaces and separators of the punctuation block.
-/

namespace PolicySeal.Text

def isBlank (c : Char) : Bool :=
  let n := c.toNat
  (0x09 ≤ n && n ≤ 0x0D) || n == 0x20 || n == 0x85 || n == 0xA0 || n == 0x1680
    || (0x2000 ≤ n && n ≤ 0x200A) || n == 0x2028 || n == 0x2029 || n == 0x202F || n == 0x205F || n == 0x3000

def trimStartChars (cs : List Char) : List Char := cs.dropWhile isBlank

def trimEndChars (cs : List Char) : List Char := (cs.reverse.dropWhile isBlank).reverse

def trimChars (cs : List Char) : List Char := trimEndChars (trimStartChars cs)

/-- The text without white space at either end. -/
def trim (s : String) : String := String.ofList (trimChars s.toList)

/-- The text without white space at its end. -/
def trimEnd (s : String) : String := String.ofList (trimEndChars s.toList)

/-- Nothing but white space. -/
def isBlankText (s : String) : Bool := s.toList.all isBlank

/-! ## Letters of ASCII -/

/-- The text with the letters A to Z in lower case; others stay. -/
def lower (s : String) : String := String.ofList (s.toList.map Char.toLower)

/-- The text with the letters a to z in upper case; others stay. -/
def upper (s : String) : String := String.ofList (s.toList.map Char.toUpper)

/-- Equal but for the case of ASCII letters. -/
def sameLetters (a b : String) : Bool := lower a == lower b

/-- Whether `part` occurs in a text. -/
def occurs (part : List Char) : List Char → Bool
  | [] => part.isEmpty
  | c :: cs => part.isPrefixOf (c :: cs) || occurs part cs

end PolicySeal.Text
