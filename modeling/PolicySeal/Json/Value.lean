import PolicySeal.Json.Number
/-
  PolicySeal.Json.Value — JSON values with the members of objects in order.

  An object is a list of members. A reader keeps its keys distinct: a key that comes again
  takes the new value at its first position (`Members.put`).

  `Json.same` compares two values as documents: numbers by `Number.same`, arrays item by
  item, objects by their keys, in any order.
-/

namespace PolicySeal

inductive Json where
  | null
  | bool (value : Bool)
  | number (value : Json.Number)
  | string (value : String)
  | array (items : List Json)
  | object (members : List (String × Json))

namespace Json

abbrev Members := List (String × Json)

namespace Members

def get? (ms : Members) (key : String) : Option Json :=
  match ms with
  | [] => none
  | (k, v) :: rest => if k = key then some v else get? rest key

def contains (ms : Members) (key : String) : Bool := ms.any (·.1 == key)

def keys (ms : Members) : List String := ms.map (·.1)

/-- Gives `key` the value: in place when it is there, else at the end. -/
def put (ms : Members) (key : String) (value : Json) : Members :=
  match ms with
  | [] => [(key, value)]
  | (k, v) :: rest => if k = key then (k, value) :: rest else (k, v) :: put rest key value

def erase (ms : Members) (key : String) : Members := ms.filter (·.1 != key)

/-- The members in turn, a later value of a key replacing the earlier one. -/
def ofList (ms : List (String × Json)) : Members := ms.foldl (fun acc m => put acc m.1 m.2) []

/-- Every key once. -/
def Distinct (ms : Members) : Prop := (keys ms).Nodup

end Members

def strings (ss : List String) : Json := .array (ss.map .string)

/-- The members of an object, none for any other value. -/
def members? : Json → Option Members
  | .object ms => some ms
  | _ => none

/-! ## Equality of documents -/

mutual

def same : Json → Json → Bool
  | .null, .null => true
  | .bool a, .bool b => a == b
  | .number a, .number b => a.same b
  | .string a, .string b => a == b
  | .array as, .array bs => sameItems as bs
  | .object as, .object bs => as.length == bs.length && sameMembers as bs
  | _, _ => false

def sameItems : List Json → List Json → Bool
  | [], [] => true
  | a :: as, b :: bs => same a b && sameItems as bs
  | _, _ => false

/-- Each member of the first list has an equal one in the second. -/
def sameMembers : List (String × Json) → List (String × Json) → Bool
  | [], _ => true
  | (k, a) :: as, bs =>
    (match Members.get? bs k with
      | some b => same a b
      | none => false) && sameMembers as bs

end

end Json

end PolicySeal
