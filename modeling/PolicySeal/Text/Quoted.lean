import PolicySeal.Text.Printable
/-
  PolicySeal.Text.Quoted — a text in quotes, as messages show it.

  Quotes and backslashes are escaped, the common controls by a letter, and every character
  that would not show by its code point in hexadecimal.
-/

namespace PolicySeal.Text

/-- Digits in lower-case hexadecimal, without leading zeros. -/
def hexNumber (n : Nat) : List Char := Nat.toDigits 16 n

def shown (c : Char) : List Char :=
  if c = '"' then ['\\', '"']
  else if c = '\\' then ['\\', '\\']
  else if c = '\n' then ['\\', 'n']
  else if c = '\r' then ['\\', 'r']
  else if c = '\t' then ['\\', 't']
  else if c = '\x00' then ['\\', '0']
  else if isPrintable c then [c]
  else ['\\', 'u', '\x7b'] ++ hexNumber c.toNat ++ ['\x7d']

def quote (s : String) : String := String.ofList ('"' :: (s.toList.flatMap shown ++ ['"']))

end PolicySeal.Text
