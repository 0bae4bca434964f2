import Mathlib.Logic.Basic
import PolicySeal.Proofs.Json.Tree
/-
  PolicySeal.Proofs.Json.Paths — what a value holds at every depth.

  A path is the keys of members on the way down (`at?`). What stands at its end is told
  without its own members (`found?`), as each of these stands at a path of its own. Values
  that tell the same at every path are the same document (`same_of_found?_eq`).
  `along?` goes down two values at once, as long as both are objects.
-/

namespace PolicySeal.Json

/-- The member of a value that is an object. -/
def member? (v : Option Json) (k : String) : Option Json := (v.bind members?).bind fun ms => Members.get? ms k

/-- What stands at a path. -/
def at? : List String → Option Json → Option Json
  | [], v => v
  | k :: path, v => at? path (member? v k)

/-- An object without its members, any other value as it is. -/
def head : Json → Json
  | .object _ => .object []
  | v => v

def found? (path : List String) (v : Option Json) : Option Json := (at? path v).map head

/-- What stands at a path in two values that are objects all the way there. -/
def along? : List String → Option Json → Option Json → Option (Option Json × Option Json)
  | [], v, w => some (v, w)
  | k :: path, v, w =>
    match v.bind members?, w.bind members? with
    | some ms, some ns => along? path (Members.get? ms k) (Members.get? ns k)
    | _, _ => none

section

variable {v w : Option Json} {k : String} {path : List String}

@[simp] theorem member?_object (ms : Members) (k : String) : member? (some (.object ms)) k = Members.get? ms k := rfl

@[simp] theorem at?_nil (v : Option Json) : at? [] v = v := rfl
@[simp] theorem at?_cons (k : String) (path : List String) (v : Option Json) :
    at? (k :: path) v = at? path (member? v k) := rfl

@[simp] theorem found?_nil (v : Option Json) : found? [] v = v.map head := rfl
@[simp] theorem found?_cons (k : String) (path : List String) (v : Option Json) :
    found? (k :: path) v = found? path (member? v k) := rfl

theorem along?_cons_of_not_object (h : v.bind members? = none ∨ w.bind members? = none) :
    along? (k :: path) v w = none := by
  rw [along?]
  rcases h with h | h
  · rw [h]
  · rw [h]
    cases v.bind members? <;> rfl

end

/-! ## Values told by their paths -/

theorem same_number_self (n : Number) : n.same n = true := by
  cases n <;> simp [Number.same, Decimal.Double.same]

theorem sameItems_self {items : List Json} (h : ∀ v ∈ items, same v v = true) : sameItems items items = true := by
  induction items with
  | nil => rfl
  | cons v items ih =>
    obtain ⟨hv, hitems⟩ := List.forall_mem_cons.mp h
    rw [sameItems, hv, ih hitems]
    rfl

theorem sameMembers_of_get? {as bs : Members}
    (h : ∀ m ∈ as, ∃ b, Members.get? bs m.1 = some b ∧ same m.2 b = true) : sameMembers as bs = true := by
  induction as with
  | nil => rw [sameMembers]
  | cons m as ih =>
    obtain ⟨hm, has⟩ := List.forall_mem_cons.mp h
    obtain ⟨b, hb, hsame⟩ := hm
    rw [sameMembers.eq_def]
    simp only [hb, hsame, ih has, Bool.and_self]

theorem same_object {as bs : Members} (ha : Members.Distinct as) (hb : Members.Distinct bs)
    (h : ∀ k a, Members.get? as k = some a → ∃ b, Members.get? bs k = some b ∧ same a b = true)
    (hnone : ∀ k, Members.get? as k = none → Members.get? bs k = none) : same (.object as) (.object bs) = true := by
  have hkeys : (Members.keys as).Perm (Members.keys bs) := by
    refine (List.perm_ext_iff_of_nodup ha hb).mpr fun k => ?_
    rw [← not_iff_not, ← Members.get?_eq_none_iff, ← Members.get?_eq_none_iff]
    refine ⟨hnone k, fun hk => ?_⟩
    cases hg : Members.get? as k with
    | none => rfl
    | some a =>
      obtain ⟨b, hb, -⟩ := h k a hg
      rw [hk] at hb
      cases hb
  have hlength : as.length = bs.length := by simpa [Members.keys] using hkeys.length_eq
  rw [same, hlength, beq_self_eq_true, Bool.true_and]
  exact sameMembers_of_get? fun m hm => h m.1 m.2 (ha.get?_of_mem hm)

theorem same_self (v : Json) : Distinct v → same v v = true := by
  induction v using induct with
  | null => intro; rfl
  | bool b => intro; simp [same]
  | number n => intro; rw [same, same_number_self]
  | string s => intro; simp [same]
  | array items ih =>
    intro hv
    rw [same]
    exact sameItems_self fun v hmem => ih v hmem (distinct_array.mp hv v hmem)
  | object ms ih =>
    intro hv
    obtain ⟨hms, hvalues⟩ := distinct_object.mp hv
    refine same_object hms hms (fun k a hk => ⟨a, hk, ?_⟩) fun _ hk => hk
    have hmem := Members.mem_of_get? hk
    exact ih _ hmem (hvalues _ hmem)

/-- A value that is no object is told by its head. -/
theorem eq_of_head_eq {v w : Json} (hv : v.members? = none) (h : head v = head w) : v = w := by
  cases v with
  | object ms => cases hv
  | _ => cases w <;> first | exact h | cases h

/-- Values with the same at every path are the same document. -/
theorem same_of_found?_eq (v : Json) : ∀ w, Distinct v → Distinct w →
    (∀ path, found? path (some v) = found? path (some w)) → same v w = true := by
  induction v using induct with
  | object as ih =>
    intro w hv hw hfound
    cases w with
    | object bs =>
      obtain ⟨has, hvalues⟩ := distinct_object.mp hv
      obtain ⟨hbs, hvalues'⟩ := distinct_object.mp hw
      have hmember : ∀ k path, found? path (Members.get? as k) = found? path (Members.get? bs k) :=
        fun k path => hfound (k :: path)
      refine same_object has hbs (fun k a hk => ?_) fun k hk => ?_
      · cases hb : Members.get? bs k with
        | none =>
          have hhead := hmember k []
          rw [hk, hb] at hhead
          cases hhead
        | some b =>
          have ha := Members.mem_of_get? hk
          refine ⟨b, rfl, ih _ ha b (hvalues _ ha) (hvalues' _ (Members.mem_of_get? hb)) fun path => ?_⟩
          rw [← hk, ← hb]
          exact hmember k path
      · have hhead := hmember k []
        rw [hk] at hhead
        exact Option.map_eq_none_iff.mp hhead.symm
    | _ => cases hfound []
  | _ =>
    intro w hv _ hfound
    rw [← eq_of_head_eq rfl (Option.some.inj (hfound []))]
    exact same_self _ hv

end PolicySeal.Json
