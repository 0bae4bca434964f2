import PolicySeal.Text.Blank
/-
  PolicySeal.Config.Environment — configuration values from named variables.

  A variable that is blank counts as unset. A number is read without the white space around
  it; one that cannot be read counts as unset too.
-/

namespace PolicySeal

/-- The variables that are set, by name. -/
abbrev Environment := String → Option String

namespace Environment

/-- The value of a variable that is more than white space. -/
def value? (env : Environment) (name : String) : Option String :=
  (env name).filter fun v => !Text.isBlankText v

/-- The number that digits spell, after at most one plus sign, if it is below `2 ^ 64`. -/
def number? (text : String) : Option Nat :=
  let cs := text.toList
  let ds := if cs.head? == some '+' then cs.drop 1 else cs
  if ds.isEmpty || !ds.all Char.isDigit then none
  else
    let n := ds.foldl (fun n d => 10 * n + (d.toNat - '0'.toNat)) 0
    if n < 0x10000000000000000 then some n else none

def numberOr (env : Environment) (name : String) (otherwise : Nat) : Nat :=
  ((env.value? name).bind fun v => number? (Text.trim v)).getD otherwise

/-- The variables of a list, the first of a name counting. -/
def ofList (vars : List (String × String)) : Environment := fun name => vars.lookup name

end Environment

end PolicySeal
