import PolicySeal.Json.Value
/-
  PolicySeal.Path — file paths as they are written.

  A path keeps its text. Two paths are the same place in a tree when they have the same
  parts: doubled and trailing separators and inner `.` do not count, `..` stays as it is.
-/

namespace PolicySeal

structure Path where
  text : String
  deriving DecidableEq

namespace Path

inductive Part where
  | root
  | here
  | parent
  | name (s : String)
  deriving DecidableEq

instance : Inhabited Path := ⟨⟨""⟩⟩

/-- The pieces between separators. -/
def pieces : List Char → List (List Char)
  | [] => [[]]
  | c :: cs =>
    if c = '/' then [] :: pieces cs
    else match pieces cs with
      | [] => [[c]]
      | p :: ps => (c :: p) :: ps

def partOf (piece : List Char) : Option Part :=
  if piece = [] ∨ piece = ['.'] then none
  else if piece = ['.', '.'] then some .parent
  else some (.name (String.ofList piece))

/-- A `.` counts only as the first piece of a relative path. -/
def parts (p : Path) : List Part :=
  match pieces p.text.toList with
  | [] => []
  | [[]] => []
  | [] :: rest => .root :: rest.filterMap partOf
  | ['.'] :: rest => .here :: rest.filterMap partOf
  | rest => rest.filterMap partOf

/-- The same place: equal part by part. -/
def same (a b : Path) : Bool := a.parts == b.parts

def isAbsolute (p : Path) : Bool := p.text.toList.head? == some '/'

/-- The second path as seen from the first: an absolute one replaces it. -/
def join (base : Path) (rest : Path) : Path :=
  if rest.isAbsolute then rest
  else
    match base.text.toList.getLast? with
    | none => rest
    | some '/' => ⟨base.text ++ rest.text⟩
    | some _ => ⟨base.text ++ "/" ++ rest.text⟩

def child (base : Path) (name : String) : Path := base.join ⟨name⟩

/-! ## The path above -/

/-- Whether a piece counts: it is not empty and not `.`, or it is a `.` at the start. -/
def counts (isFirst : Bool) (piece : List Char) : Bool := piece != [] && (isFirst || piece != ['.'])

/-- Pieces from the last on, without those at the front that do not count. -/
def dropIdle : List (List Char) → List (List Char)
  | [] => []
  | p :: rest => if counts rest.isEmpty p then p :: rest else dropIdle rest

/-- The path without its last part, if it has one. -/
def parent? (p : Path) : Option Path :=
  match dropIdle (pieces p.text.toList).reverse with
  | [] => none
  | _ :: above =>
    let text := ['/'].intercalate (dropIdle above).reverse
    some ⟨if p.isAbsolute then "/" ++ String.ofList (text.dropWhile (· == '/')) else String.ofList text⟩

/-- Order of parts: a root, then `.`, then `..`, then names by code points. -/
def Part.rank : Part → Nat
  | .root => 0
  | .here => 1
  | .parent => 2
  | .name _ => 3

def Part.before : Part → Part → Bool
  | .name a, .name b => decide (a < b)
  | a, b => decide (a.rank < b.rank)

/-- Order of paths, part by part. -/
def partsBefore : List Part → List Part → Bool
  | _, [] => false
  | [], _ :: _ => true
  | a :: as, b :: bs => Part.before a b || (a == b && partsBefore as bs)

def before (a b : Path) : Bool := partsBefore a.parts b.parts

end Path

end PolicySeal
