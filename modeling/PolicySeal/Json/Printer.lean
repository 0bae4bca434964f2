import PolicySeal.Json.Token
/-
  PolicySeal.Json.Printer — the two written forms of a JSON value.

  `compact` is the tokens of the value with nothing in between. `pretty` puts each item and
  member on a line of its own, indented by two spaces a level, and a space after each colon;
  an empty array or object stays on its line. Both write the same tokens.
-/

namespace PolicySeal.Json

/-! ## Compact -/

mutual

def tokens : Json → List Token
  | .null => [.null]
  | .bool b => [.bool b]
  | .number n => [.numeral n.text]
  | .string s => [.string s]
  | .array items => .openArray :: (itemTokens items ++ [.closeArray])
  | .object members => .openObject :: (memberTokens members ++ [.closeObject])

def itemTokens : List Json → List Token
  | [] => []
  | [v] => tokens v
  | v :: rest => tokens v ++ .comma :: itemTokens rest

def memberTokens : List (String × Json) → List Token
  | [] => []
  | [(k, v)] => .string k :: .colon :: tokens v
  | (k, v) :: rest => .string k :: .colon :: (tokens v ++ .comma :: memberTokens rest)

end

def compactChars (v : Json) : List Char := (tokens v).flatMap Token.text

def compact (v : Json) : String := String.ofList (compactChars v)

/-! ## Pretty -/

/-- A line end and the indentation of a level. -/
def newline (level : Nat) : List Char := '\n' :: List.replicate (2 * level) ' '

mutual

def prettyChars (level : Nat) : Json → List Char
  | .null => Token.text .null
  | .bool b => Token.text (.bool b)
  | .number n => n.text
  | .string s => Token.quoted s.toList
  | .array [] => ['[', ']']
  | .array items => '[' :: (prettyItems (level + 1) items ++ newline level ++ [']'])
  | .object [] => ['\x7b', '\x7d']
  | .object members => '\x7b' :: (prettyMembers (level + 1) members ++ newline level ++ ['\x7d'])

def prettyItems (level : Nat) : List Json → List Char
  | [] => []
  | [v] => newline level ++ prettyChars level v
  | v :: rest => newline level ++ prettyChars level v ++ ',' :: prettyItems level rest

def prettyMembers (level : Nat) : List (String × Json) → List Char
  | [] => []
  | [(k, v)] => newline level ++ Token.quoted k.toList ++ ':' :: ' ' :: prettyChars level v
  | (k, v) :: rest =>
    newline level ++ Token.quoted k.toList ++ ':' :: ' ' :: (prettyChars level v ++ ',' :: prettyMembers level rest)

end

def pretty (v : Json) : String := String.ofList (prettyChars 0 v)

end PolicySeal.Json
