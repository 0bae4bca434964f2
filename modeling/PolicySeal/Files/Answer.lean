import PolicySeal.Path
/-
  PolicySeal.Files.Answer — what comes of reading a text at a path.
-/

namespace PolicySeal

inductive Answer where
  | text (s : String)
  | absent
  | failed (message : String)
  /-- The reader itself broke down. -/
  | broken
  deriving DecidableEq

/-- Where texts are read. -/
abbrev Source := Path → Answer

/-- How the absence of a file is reported. -/
def absentText : String := "No such file or directory (os error 2)"

end PolicySeal
