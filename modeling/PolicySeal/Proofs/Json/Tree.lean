import PolicySeal.Json.Draft
import PolicySeal.Proofs.Json.Members
/-
  PolicySeal.Proofs.Json.Tree — JSON values as trees.

  - `Json.induct`: what holds of a value when it holds of its items and of its members'
    values holds of all values;
  - `Inside`: the values inside a value, itself included; `Every p` says that all of them
    have a property;
  - `Distinct`: in every object inside, every key stands once. This is so of all values a
    reader gives (`distinct_of_ofText?`), however often the text repeats a key;
  - `depth`: how deep arrays and objects are nested.
-/

namespace PolicySeal.Json

theorem induct {motive : Json → Prop} (null : motive .null) (bool : ∀ b, motive (.bool b))
    (number : ∀ n, motive (.number n)) (string : ∀ s, motive (.string s))
    (array : ∀ items, (∀ v ∈ items, motive v) → motive (.array items))
    (object : ∀ ms, (∀ m ∈ ms, motive m.2) → motive (.object ms)) : ∀ v, motive v
  | .null => null
  | .bool b => bool b
  | .number n => number n
  | .string s => string s
  | .array items => array items fun v _ => induct null bool number string array object v
  | .object ms => object ms fun m hm =>
    have : sizeOf m.2 < 1 + sizeOf ms := by
      have := List.sizeOf_lt_of_mem hm
      have : sizeOf m = 1 + sizeOf m.1 + sizeOf m.2 := rfl
      omega
    induct null bool number string array object m.2
  termination_by v => sizeOf v

/-! ## The values inside a value -/

inductive Inside : Json → Json → Prop
  | self (v : Json) : Inside v v
  | item {u v : Json} {items : List Json} : v ∈ items → Inside u v → Inside u (.array items)
  | member {u : Json} {m : String × Json} {ms : Members} : m ∈ ms → Inside u m.2 → Inside u (.object ms)

def Every (p : Json → Prop) (v : Json) : Prop := ∀ u, Inside u v → p u

variable {p : Json → Prop}

theorem Every.self {v : Json} (h : Every p v) : p v := h v (.self v)

theorem every_null : Every p .null ↔ p .null := ⟨Every.self, fun h u hu => by cases hu; exact h⟩
theorem every_bool {b : Bool} : Every p (.bool b) ↔ p (.bool b) := ⟨Every.self, fun h u hu => by cases hu; exact h⟩
theorem every_number {n : Number} : Every p (.number n) ↔ p (.number n) :=
  ⟨Every.self, fun h u hu => by cases hu; exact h⟩
theorem every_string {s : String} : Every p (.string s) ↔ p (.string s) :=
  ⟨Every.self, fun h u hu => by cases hu; exact h⟩

theorem every_array {items : List Json} : Every p (.array items) ↔ p (.array items) ∧ ∀ v ∈ items, Every p v := by
  constructor
  · intro h
    exact ⟨h.self, fun v hv u hu => h u (.item hv hu)⟩
  · intro hev u hu
    obtain ⟨h, hi⟩ := hev
    cases hu with
    | self => exact h
    | item hv hu => exact hi _ hv u hu

theorem every_object {ms : Members} : Every p (.object ms) ↔ p (.object ms) ∧ ∀ m ∈ ms, Every p m.2 := by
  constructor
  · intro h
    exact ⟨h.self, fun m hm u hu => h u (.member hm hu)⟩
  · intro hev u hu
    obtain ⟨h, hi⟩ := hev
    cases hu with
    | self => exact h
    | member hm hu => exact hi _ hm u hu

/-! ## Every key once -/

/-- In every object inside, every key stands once. -/
def Distinct (v : Json) : Prop := Every (fun u => ∀ ms, u = .object ms → Members.Distinct ms) v

@[simp] theorem distinct_null : Distinct .null := every_null.mpr fun _ h => by cases h
@[simp] theorem distinct_bool (b : Bool) : Distinct (.bool b) := every_bool.mpr fun _ h => by cases h
@[simp] theorem distinct_number (n : Number) : Distinct (.number n) := every_number.mpr fun _ h => by cases h
@[simp] theorem distinct_string (s : String) : Distinct (.string s) := every_string.mpr fun _ h => by cases h

@[simp] theorem distinct_array {items : List Json} : Distinct (.array items) ↔ ∀ v ∈ items, Distinct v := by
  rw [Distinct, every_array]
  exact ⟨And.right, fun h => ⟨fun _ e => (nomatch e), h⟩⟩

theorem distinct_object {ms : Members} : Distinct (.object ms) ↔ Members.Distinct ms ∧ ∀ m ∈ ms, Distinct m.2 := by
  rw [Distinct, every_object]
  refine and_congr_left fun _ => ⟨fun h => h ms rfl, fun h _ e => ?_⟩
  cases e
  exact h

@[simp] theorem distinct_strings (ss : List String) : Distinct (strings ss) := by
  apply distinct_array.mpr
  intro v hv
  obtain ⟨s, _, rfl⟩ := List.mem_map.mp hv
  exact distinct_string s

/-! ## Depth -/

mutual

/-- How deep arrays and objects are nested. -/
def depth : Json → Nat
  | .array items => itemsDepth items + 1
  | .object ms => membersDepth ms + 1
  | _ => 0

def itemsDepth : List Json → Nat
  | [] => 0
  | v :: rest => max (depth v) (itemsDepth rest)

def membersDepth : List (String × Json) → Nat
  | [] => 0
  | (_, v) :: rest => max (depth v) (membersDepth rest)

end

theorem itemsDepth_le {items : List Json} {d : Nat} : itemsDepth items ≤ d ↔ ∀ v ∈ items, depth v ≤ d := by
  induction items with
  | nil => simp [itemsDepth]
  | cons v rest ih => rw [itemsDepth, Nat.max_le, ih, List.forall_mem_cons]

theorem membersDepth_le {ms : List (String × Json)} {d : Nat} : membersDepth ms ≤ d ↔ ∀ m ∈ ms, depth m.2 ≤ d := by
  induction ms with
  | nil => simp [membersDepth]
  | cons m rest ih => rw [membersDepth, Nat.max_le, ih, List.forall_mem_cons]

theorem depth_array_le {items : List Json} {d : Nat} :
    depth (.array items) ≤ d ↔ d ≠ 0 ∧ ∀ v ∈ items, depth v ≤ d - 1 := by
  rw [depth, ← itemsDepth_le]
  omega

theorem depth_object_le {ms : Members} {d : Nat} :
    depth (.object ms) ≤ d ↔ d ≠ 0 ∧ ∀ m ∈ ms, depth m.2 ≤ d - 1 := by
  rw [depth, ← membersDepth_le]
  omega

@[simp] theorem depth_null : depth .null = 0 := rfl
@[simp] theorem depth_bool (b : Bool) : depth (.bool b) = 0 := rfl
@[simp] theorem depth_number (n : Number) : depth (.number n) = 0 := rfl
@[simp] theorem depth_string (s : String) : depth (.string s) = 0 := rfl

end PolicySeal.Json
