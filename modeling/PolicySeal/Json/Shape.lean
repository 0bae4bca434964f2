import PolicySeal.Json.Draft
import PolicySeal.Text.Quoted
import PolicySeal.Time.Written
/-
  PolicySeal.Json.Shape — reading values of a wanted shape.

  `ShapeError` says how a value differs from what is wanted, in the words of the messages.
  There are readers of values (`Shape.string`, …) and readers of drafts (`Draft.string`, …).
  The latter go through a text in order, so the first member of the wrong kind is reported
  even if the text breaks off later, and a broken text if it breaks off before.

  `Draft.record` reads the fields of a record from an object, where a field must not come
  twice and unknown members are passed over, or from an array, in the order of the fields.
-/

namespace PolicySeal.Json

/-- What stands in the place of a wanted value. -/
inductive Found where
  | null
  | bool (value : Bool)
  | number (value : Number)
  | string (value : String)
  | sequence
  | map

inductive ShapeError where
  | wrongType (found : Found) (wanted : String)
  | wrongValue (found : Found) (wanted : String)
  | wrongLength (length : Nat) (wanted : String)
  | unknownVariant (name : String) (known : List String)
  | missingField (name : String)
  | duplicateField (name : String)
  | notATime (reason : Time.WrittenError)

def Found.text : Found → String
  | null => "null"
  | bool true => "boolean `true`"
  | bool false => "boolean `false`"
  | number (.whole i _) => "integer `" ++ String.ofList (Number.wholeText i) ++ "`"
  | number (.float d) => "floating point `" ++ String.ofList (Number.floatText d) ++ "`"
  | string s => "string " ++ Text.quote s
  | sequence => "sequence"
  | map => "map"

def ticked (name : String) : String := "`" ++ name ++ "`"

/-- The known names: two with a word between them, more in a list. -/
def alternatives : List String → String
  | [] => "there are no variants"
  | [a] => "expected " ++ ticked a
  | [a, b] => "expected " ++ ticked a ++ " or " ++ ticked b
  | names => "expected one of " ++ ", ".intercalate (names.map ticked)

def ShapeError.message : ShapeError → String
  | wrongType found wanted => "invalid type: " ++ found.text ++ ", expected " ++ wanted
  | wrongValue found wanted => "invalid value: " ++ found.text ++ ", expected " ++ wanted
  | wrongLength length wanted => "invalid length " ++ toString length ++ ", expected " ++ wanted
  | unknownVariant name known => "unknown variant " ++ ticked name ++ ", " ++ alternatives known
  | missingField name => "missing field " ++ ticked name
  | duplicateField name => "duplicate field " ++ ticked name
  | notATime reason => reason.message

/-! ## Values -/

namespace Shape

abbrev Reader (α : Type) := Json → Except ShapeError α

def found : Json → Found
  | .null => .null
  | .bool b => .bool b
  | .number n => .number n
  | .string s => .string s
  | .array _ => .sequence
  | .object _ => .map

def wrong (v : Json) (wanted : String) : ShapeError := .wrongType (found v) wanted

def string : Reader String
  | .string s => .ok s
  | v => .error (wrong v "a string")

def list : Reader (List Json)
  | .array items => .ok items
  | v => .error (wrong v "a sequence")

def strings : Reader (List String)
  | .array items => items.mapM string
  | v => .error (wrong v "a sequence")

/-- Null stands for an absent value. -/
def optional {α : Type} (reader : Reader α) : Reader (Option α)
  | .null => .ok none
  | v => (reader v).map some

/-- What a member of an object must be: the first member in order that is not is the error. -/
def check (wanted : String → Option (Reader Unit)) : Members → Except ShapeError Unit
  | [] => .ok ()
  | (k, v) :: rest => do
    match wanted k with
    | some reader => reader v
    | none => pure ()
    check wanted rest

/-- The value of a member that has to be there. -/
def field {α : Type} (ms : Members) (name : String) (reader : Reader α) : Except ShapeError α :=
  match Members.get? ms name with
  | some v => reader v
  | none => .error (.missingField name)

/-- The value of a member, or `absent` if it is not there. -/
def fieldOr {α : Type} (ms : Members) (name : String) (reader : Reader α) (absent : α) : Except ShapeError α :=
  match Members.get? ms name with
  | some v => reader v
  | none => .ok absent

def unit {α : Type} (reader : Reader α) : Reader Unit := fun v => (reader v).map fun _ => ()

end Shape

/-! ## Drafts -/

/-- Why a text does not hold what is wanted: it is not JSON, or not of the shape. -/
inductive ReadError where
  | broken
  | shape (reason : ShapeError)

def ReadError.message : ReadError → String
  | broken => "the text is not JSON"
  | shape reason => reason.message

namespace Draft

abbrev Reader (α : Type) := Draft → Except ReadError α

/-- The error where a value of another kind stands, or no value at all. -/
def wrong (wanted : String) : Draft → ReadError
  | scalar v => .shape (Shape.wrong v wanted)
  | array _ => .shape (.wrongType .sequence wanted)
  | object _ => .shape (.wrongType .map wanted)
  | faulty => .broken
  | cut => .broken

def string : Reader String
  | scalar (.string s) => .ok s
  | d => .error (wrong "a string" d)

def path : Reader String
  | scalar (.string s) => .ok s
  | d => .error (wrong "path string" d)

def bool : Reader Bool
  | scalar (.bool b) => .ok b
  | d => .error (wrong "a boolean" d)

/-- A whole number below `2 ^ 64`; `kind` is its name in messages. -/
def natural (kind : String) : Reader Nat
  | scalar (.number (.whole i h)) =>
    if i < 0 then .error (.shape (.wrongValue (.number (.whole i h)) kind)) else .ok i.toNat
  | d => .error (wrong kind d)

def time : Reader Time.Reading
  | scalar (.string s) =>
    match Time.Reading.ofText? s with
    | .ok r => .ok r
    | .error e => .error (.shape (.notATime e))
  | d => .error (wrong "an RFC 3339 formatted date and time string" d)

def optional {α : Type} (reader : Reader α) : Reader (Option α)
  | scalar .null => .ok none
  | d => (reader d).map some

def list {α : Type} (reader : Reader α) : Reader (List α)
  | array items => items.mapM reader
  | d => .error (wrong "a sequence" d)

/-- The variant of a name. -/
def named {α : Type} (variants : List (String × α)) (name : String) : Except ReadError α :=
  match variants.lookup name with
  | some v => .ok v
  | none => .error (.shape (.unknownVariant name (variants.map (·.1))))

/-- A variant is its name, or an object that has the name as its only key, with null. -/
def variant {α : Type} (variants : List (String × α)) : Reader α
  | scalar (.string s) => named variants s
  | object ((some key, d) :: rest) => do
    let v ← named variants key
    match d with
    | scalar .null => if rest.isEmpty then .ok v else .error .broken
    | d => .error (wrong "unit" d)
  | _ => .error .broken

/-- A field of a record: what it must be, and whether an array may end before it. -/
structure Field where
  name : String
  check : Draft → Except ReadError Unit
  hasDefault : Bool

def Field.of {α : Type} (name : String) (reader : Reader α) (hasDefault : Bool) : Field :=
  ⟨name, fun d => (reader d).map fun _ => (), hasDefault⟩

/-- The fields that were given, with their drafts. -/
abbrev Slots := List (String × Draft)

/-- Goes through the members of an object; `seen` are the fields met so far. -/
def ofMembers (fields : List Field) (seen : Slots) : List (Option String × Draft) → Except ReadError Slots
  | [] => .ok seen
  | (none, _) :: _ => .error .broken
  | (some key, d) :: rest =>
    match fields.find? (·.name == key) with
    | some f =>
      if (seen.lookup key).isSome then .error (.shape (.duplicateField key))
      else do
        f.check d
        ofMembers fields (seen ++ [(key, d)]) rest
    | none => if d.isWhole then ofMembers fields seen rest else .error .broken

/-- Goes through the items of an array; `wanted` describes a whole one, `index` counts the items. -/
def ofItems (wanted : String) (index : Nat) : List Field → List Draft → Except ReadError Slots
  | [], [] => .ok []
  | [], _ :: _ => .error .broken
  | f :: fs, d :: ds => do
    f.check d
    return (f.name, d) :: (← ofItems wanted (index + 1) fs ds)
  | f :: fs, [] => if f.hasDefault then ofItems wanted (index + 1) fs [] else .error (.shape (.wrongLength index wanted))

/-- The given fields of a record called `name`. -/
def record (name : String) (fields : List Field) : Reader Slots
  | object members => ofMembers fields [] members
  | array items =>
    ofItems ("struct " ++ name ++ " with " ++ toString fields.length ++ " elements") 0 fields items
  | d => .error (wrong ("struct " ++ name) d)

namespace Slots

def required {α : Type} (slots : Slots) (name : String) (reader : Reader α) : Except ReadError α :=
  match slots.lookup name with
  | some d => reader d
  | none => .error (.shape (.missingField name))

def orElse {α : Type} (slots : Slots) (name : String) (reader : Reader α) (absent : α) : Except ReadError α :=
  match slots.lookup name with
  | some d => reader d
  | none => .ok absent

end Slots

/-- Reads a whole text with a reader: what follows the value counts only if the reader succeeds. -/
def readText {α : Type} (reader : Reader α) (text : String) : Except ReadError α := do
  let (d, rest) := ofTokens (Token.ofText text.toList)
  let v ← reader d
  if rest.isEmpty then return v else throw .broken

end Draft

/-- The value of a text, as an error of reading. -/
def read (text : String) : Except ReadError Json :=
  match ofText? text with
  | some v => .ok v
  | none => .error .broken

end PolicySeal.Json
