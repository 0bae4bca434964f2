import PolicySeal.Json.Shape
import PolicySeal.Proofs.Json.Members
/-
  PolicySeal.Proofs.Json.Shape — what the readers of values accept, and what they give.

  Each reader has one equation of the form `reader v = .ok x ↔ …`, in which `v` is told by
  `x`. Readers of members are told by lookups: a member that has to be there, one that may
  be absent (`OrAbsent`), and in an object with every key once also the check of all members
  (`check_eq_ok_iff`).
-/

namespace PolicySeal.Json

theorem Except.bind_eq_ok_iff {ε α β : Type} {x : Except ε α} {f : α → Except ε β} {b : β} :
    x >>= f = .ok b ↔ ∃ a, x = .ok a ∧ f a = .ok b := by
  cases x with
  | error e => exact ⟨fun h => (nomatch h), fun ⟨_, h, _⟩ => (nomatch h)⟩
  | ok a => exact ⟨fun h => ⟨a, rfl, h⟩, fun ⟨_, h, hf⟩ => by cases h; exact hf⟩

namespace Shape

variable {α : Type} {reader : Reader α} {v : Json} {ms : Members} {name : String}

/-! ## Values -/

theorem string_eq_ok_iff {s : String} : string v = .ok s ↔ v = .string s := by
  cases v <;> simp [string]

theorem list_eq_ok_iff {items : List Json} : list v = .ok items ↔ v = .array items := by
  cases v <;> simp [list]

theorem mapM_string_eq_ok_iff {items : List Json} {ss : List String} :
    items.mapM string = .ok ss ↔ items = ss.map .string := by
  induction items generalizing ss with
  | nil => cases ss <;> simp [pure, Except.pure]
  | cons v items ih =>
    simp only [List.mapM_cons, Except.bind_eq_ok_iff, string_eq_ok_iff, ih, pure, Except.pure, Except.ok.injEq]
    constructor
    · rintro ⟨s, rfl, rest, rfl, rfl⟩
      rfl
    · intro h
      cases ss with
      | nil => cases h
      | cons s rest =>
        obtain ⟨rfl, rfl⟩ := List.cons.inj h
        exact ⟨s, rfl, rest, rfl, rfl⟩

theorem strings_eq_ok_iff {ss : List String} : strings v = .ok ss ↔ v = Json.strings ss := by
  cases v <;> simp [strings, Json.strings, mapM_string_eq_ok_iff]

theorem optional_eq_ok_iff {x : Option α} :
    optional reader v = .ok x ↔ (v = .null ∧ x = none) ∨ v ≠ .null ∧ ∃ y, reader v = .ok y ∧ x = some y := by
  have hmap : ∀ w : Except ShapeError α, w.map some = .ok x ↔ ∃ y, w = .ok y ∧ x = some y := by
    intro w
    cases w <;> simp [Except.map, eq_comm]
  cases v <;> simp [optional, hmap, eq_comm]

theorem unit_eq_ok_iff : unit reader v = .ok () ↔ ∃ x, reader v = .ok x := by
  rw [unit]
  cases reader v <;> simp [Except.map]

/-! ## Members -/

theorem field_eq_ok_iff {x : α} :
    field ms name reader = .ok x ↔ ∃ v, Members.get? ms name = some v ∧ reader v = .ok x := by
  rw [field]
  cases Members.get? ms name <;> simp

/-- What is read from a member that may be absent. -/
def OrAbsent (reader : Reader α) (absent : α) (found : Option Json) (x : α) : Prop :=
  (found = none ∧ x = absent) ∨ ∃ v, found = some v ∧ reader v = .ok x

theorem fieldOr_eq_ok_iff {x absent : α} :
    fieldOr ms name reader absent = .ok x ↔ OrAbsent reader absent (Members.get? ms name) x := by
  rw [fieldOr, OrAbsent]
  cases Members.get? ms name <;> simp [eq_comm]

/-- A member says one thing only. -/
theorem OrAbsent.unique {x y absent : α} {found : Option Json} (hx : OrAbsent reader absent found x)
    (hy : OrAbsent reader absent found y) : x = y := by
  rcases hx with ⟨rfl, rfl⟩ | ⟨v, rfl, hv⟩
  · rcases hy with ⟨_, rfl⟩ | ⟨w, hw, _⟩
    · rfl
    · cases hw
  · rcases hy with ⟨hnone, _⟩ | ⟨w, hw, hy⟩
    · cases hnone
    · cases hw
      exact Except.ok.inj (hv.symm.trans hy)

theorem OrAbsent.unit {x absent : α} (h : OrAbsent reader absent (Members.get? ms name) x)
    (hv : Members.get? ms name = some v) : Shape.unit reader v = .ok () := by
  rcases h with ⟨hnone, _⟩ | ⟨w, hw, hx⟩
  · rw [hv] at hnone
    cases hnone
  · rw [hv] at hw
    cases hw
    exact unit_eq_ok_iff.mpr ⟨x, hx⟩

theorem unit_string {s : String} (hs : Members.get? ms name = some (.string s)) (hv : Members.get? ms name = some v) :
    Shape.unit string v = .ok () := by
  rw [hs] at hv
  exact unit_eq_ok_iff.mpr ⟨s, string_eq_ok_iff.mpr (Option.some.inj hv).symm⟩

theorem check_eq_ok_iff' {wanted : String → Option (Reader Unit)} :
    check wanted ms = .ok () ↔ ∀ m ∈ ms, ∀ r, wanted m.1 = some r → r m.2 = .ok () := by
  induction ms with
  | nil => simp [check]
  | cons m ms ih =>
    rw [List.forall_mem_cons, ← ih, check]
    cases wanted m.1 with
    | none => simp
    | some r =>
      simp only [Except.bind_eq_ok_iff, Option.some.injEq, forall_eq']
      exact ⟨fun ⟨_, hr, hc⟩ => ⟨hr, hc⟩, fun ⟨hr, hc⟩ => ⟨(), hr, hc⟩⟩

/-- Where every key stands once, the members are told by lookups. -/
theorem check_eq_ok_iff {wanted : String → Option (Reader Unit)} (hd : Members.Distinct ms) :
    check wanted ms = .ok () ↔ ∀ k r v, wanted k = some r → Members.get? ms k = some v → r v = .ok () := by
  rw [check_eq_ok_iff']
  constructor
  · intro h k r v hr hv
    exact h _ (Members.mem_of_get? hv) r hr
  · intro h m hm r hr
    exact h m.1 r m.2 hr (hd.get?_of_mem hm)

end Shape

/-- A text is read when its draft is and nothing follows. -/
theorem Draft.readText_eq_ok_iff {α : Type} {reader : Draft.Reader α} {text : String} {a : α} :
    Draft.readText reader text = .ok a ↔
      reader (Draft.ofTokens (Token.ofText text.toList)).1 = .ok a ∧
        (Draft.ofTokens (Token.ofText text.toList)).2 = [] := by
  rw [Draft.readText]
  generalize Draft.ofTokens (Token.ofText text.toList) = read
  obtain ⟨d, rest⟩ := read
  simp only [Except.bind_eq_ok_iff]
  cases rest with
  | nil => simp [pure, Except.pure]
  | cons t ts => simp [throw, throwThe, MonadExceptOf.throw]

end PolicySeal.Json
