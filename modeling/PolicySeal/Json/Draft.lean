import PolicySeal.Json.Token
/-
  PolicySeal.Json.Draft — what a text holds, as far as it is JSON.

  A draft is the tree of a text that may break off: `cut` stands where the text stops being
  JSON, `faulty` for a scalar that has the form of one and no value (a number out of range, a
  string with half a surrogate pair). A reader that wants a certain shape goes through the
  draft in the order of the text and so finds whichever comes first, a value of the wrong kind
  or the place where the text breaks.

  - `Draft.ofTokens`: the draft at the head of some tokens, and the tokens after it;
  - `Draft.value?`: the value of a draft without faults, nested at most `nestingLimit` deep;
  - `Json.ofText?`: the value of a whole text.
-/

namespace PolicySeal.Json

inductive Draft where
  | scalar (value : Json)
  | faulty
  | array (items : List Draft)
  /-- A key is missing where it is faulty. -/
  | object (members : List (Option String × Draft))
  | cut

namespace Draft

/-! ## From tokens -/

mutual

/-- The draft at the head of the tokens. After a cut nothing is left. -/
def ofTokensWithin : Nat → List Token → Draft × List Token
  | 0, _ => (cut, [])
  | _, [] => (cut, [])
  | fuel + 1, t :: ts =>
    match t with
    | .null => (scalar .null, ts)
    | .bool b => (scalar (.bool b), ts)
    | .string s => (scalar (.string s), ts)
    | .halfPair => (faulty, ts)
    | .numeral spelling =>
      match Number.ofText? spelling with
      | some n => (scalar (.number n), ts)
      | none => (faulty, ts)
    | .openArray =>
      match ts with
      | .closeArray :: rest => (array [], rest)
      | _ => let (items, rest) := itemsWithin fuel ts; (array items, rest)
    | .openObject =>
      match ts with
      | .closeObject :: rest => (object [], rest)
      | _ => let (members, rest) := membersWithin fuel ts; (object members, rest)
    | _ => (cut, [])

/-- One item or more, up to the closing bracket. -/
def itemsWithin : Nat → List Token → List Draft × List Token
  | 0, _ => ([cut], [])
  | fuel + 1, ts =>
    match ofTokensWithin fuel ts with
    | (v, .comma :: rest) => let (vs, after) := itemsWithin fuel rest; (v :: vs, after)
    | (v, .closeArray :: rest) => ([v], rest)
    | (v, _) => ([v, cut], [])

/-- One member or more, up to the closing brace. -/
def membersWithin : Nat → List Token → List (Option String × Draft) × List Token
  | 0, _ => ([(none, cut)], [])
  | fuel + 1, ts =>
    let member (key : Option String) (ts : List Token) :=
      match ofTokensWithin fuel ts with
      | (v, .comma :: rest) => let (ms, after) := membersWithin fuel rest; ((key, v) :: ms, after)
      | (v, .closeObject :: rest) => ([(key, v)], rest)
      | (v, _) => ([(key, v), (none, cut)], [])
    match ts with
    | .string k :: .colon :: rest => member (some k) rest
    | .halfPair :: .colon :: rest => member none rest
    | .string k :: _ => ([(some k, cut)], [])
    | _ => ([(none, cut)], [])

end

/-- Each step of the reading goes with a token, or with a value and its first token. -/
def ofTokens (ts : List Token) : Draft × List Token := ofTokensWithin (2 * ts.length + 1) ts

/-! ## Values -/

mutual

/-- The value of a draft whose arrays and objects are nested at most `depth` deep. -/
def valueWithin (depth : Nat) : Draft → Option Json
  | scalar v => some v
  | array items => if depth = 0 then none else (itemValues (depth - 1) items).map .array
  | object members =>
    if depth = 0 then none
    else (memberValues (depth - 1) members).map fun ms => .object (Members.ofList ms)
  | faulty => none
  | cut => none

def itemValues (depth : Nat) : List Draft → Option (List Json)
  | [] => some []
  | d :: ds => do return (← valueWithin depth d) :: (← itemValues depth ds)

def memberValues (depth : Nat) : List (Option String × Draft) → Option (List (String × Json))
  | [] => some []
  | (none, _) :: _ => none
  | (some k, d) :: ds => do return (k, ← valueWithin depth d) :: (← memberValues depth ds)

end

def nestingLimit : Nat := 127

def value? (d : Draft) : Option Json := valueWithin nestingLimit d

mutual

/-- Nothing breaks off inside: a reader can pass over the draft. -/
def isWhole : Draft → Bool
  | scalar _ => true
  | faulty => true
  | array items => itemsWhole items
  | object members => membersWhole members
  | cut => false

def itemsWhole : List Draft → Bool
  | [] => true
  | d :: ds => isWhole d && itemsWhole ds

def membersWhole : List (Option String × Draft) → Bool
  | [] => true
  | (_, d) :: ds => isWhole d && membersWhole ds

end

end Draft

/-- The value of a text that holds one JSON value and nothing else. -/
def ofText? (text : String) : Option Json :=
  match Draft.ofTokens (Token.ofText text.toList) with
  | (d, []) => d.value?
  | _ => none

end PolicySeal.Json
