import PolicySeal.Proofs.Json.Shape
import PolicySeal.Proofs.Policy.Overlay
/-
  PolicySeal.Proofs.Policy.Fields — the fields of labels, signature blocks and policies, and
  the members they are read from and written as.

  For each of the three there is what reading some members says about the result (`Reads`),
  which with every key once is all it says (`ofMembers_eq_ok_iff`), and for the two that
  keep other members a lookup in what they are written as (`get?_view`). Field by field, a
  value that was read leaves the member as it was (`laid_strings`, …), and one that was
  written, by itself or laid over anything, is read back (`written_strings`, …).
-/

namespace PolicySeal

open Json

/-! ## One field -/

section

variable {found : Option Json}

theorem laid_string {s : String} (h : found = some (.string s)) : laid found (some (.string s)) = found := by
  rw [h]
  exact congrArg some (overlayValue_of_not_object (Or.inl rfl))

theorem laid_array {items : List Json} (h : Shape.OrAbsent Shape.list [] found items) :
    laid found (some (.array items)) = found := by
  rcases h with ⟨rfl, rfl⟩ | ⟨v, rfl, hv⟩
  · rfl
  · rw [Shape.list_eq_ok_iff.mp hv]
    exact congrArg some (overlayValue_of_not_object (Or.inl rfl))

theorem laid_strings {ss : List String} (h : Shape.OrAbsent Shape.strings [] found ss) :
    laid found (some (strings ss)) = found := by
  refine laid_array ?_
  rcases h with ⟨rfl, rfl⟩ | ⟨v, rfl, hv⟩
  · exact Or.inl ⟨rfl, rfl⟩
  · exact Or.inr ⟨v, rfl, Shape.list_eq_ok_iff.mpr (Shape.strings_eq_ok_iff.mp hv)⟩

theorem laid_optional {s : Option String} (h : Shape.OrAbsent (Shape.optional Shape.string) none found s) :
    laid found (s.map .string) = found := by
  rcases h with ⟨rfl, rfl⟩ | ⟨v, rfl, hv⟩
  · rfl
  · rcases Shape.optional_eq_ok_iff.mp hv with ⟨rfl, rfl⟩ | ⟨_, t, ht, rfl⟩
    · rfl
    · exact laid_string (congrArg some (Shape.string_eq_ok_iff.mp ht))

end

/-! ## Values that were written -/

/-- What a reader finds of a value that was written by itself, or laid over a received one. -/
inductive Written (w : Option Json) : Option Json → Prop
  | plain : Written w w
  | onto (v : Option Json) : (∀ x ∈ v, Distinct x) → Written w (laid v w)

theorem laid_none_some {w : Json} (h : w ≠ .array []) : laid none (some w) = some w := by
  cases w with
  | array items =>
    cases items with
    | nil => exact absurd rfl h
    | cons v items => rfl
  | _ => rfl

/-- The reader gets `a` out of the value, whatever it is laid over. -/
def Gives {α : Type} (reader : Shape.Reader α) (w : Json) (a : α) : Prop :=
  w ≠ .array [] ∧ ∀ v, Distinct v → overlayValue v w ≠ .null ∧ reader (overlayValue v w) = .ok a

theorem gives_string (s : String) : Gives Shape.string (.string s) s := by
  refine ⟨nofun, fun v _ => ?_⟩
  rw [overlayValue_of_not_object (Or.inr rfl)]
  exact ⟨nofun, rfl⟩

section

variable {α : Type} {reader : Shape.Reader α} {found : Option Json}

theorem Gives.written {w : Json} {a : α} (hg : Gives reader w a) (h : Written (some w) found) :
    ∃ v, found = some v ∧ v ≠ .null ∧ reader v = .ok a := by
  obtain ⟨hne, hover⟩ := hg
  have hplain : w ≠ .null ∧ reader w = .ok a := by
    have hnull := hover .null distinct_null
    rwa [overlayValue_of_not_object (Or.inl rfl)] at hnull
  cases h with
  | plain => exact ⟨w, rfl, hplain⟩
  | onto v hv =>
    cases v with
    | none => exact ⟨w, laid_none_some hne, hplain⟩
    | some v => exact ⟨_, rfl, hover v (hv v rfl)⟩

theorem written_string {s : String} (h : Written (some (.string s)) found) : found = some (.string s) := by
  obtain ⟨v, hv, -, hread⟩ := (gives_string s).written h
  rw [hv, Shape.string_eq_ok_iff.mp hread]

theorem written_optional {x : Option α} {toJson : α → Json} (hg : ∀ a ∈ x, Gives reader (toJson a) a)
    (h : Written (x.map toJson) found) : Shape.OrAbsent (Shape.optional reader) none found x := by
  cases x with
  | some a =>
    obtain ⟨v, hv, hnull, hread⟩ := (hg a rfl).written h
    exact Or.inr ⟨v, hv, Shape.optional_eq_ok_iff.mpr (Or.inr ⟨hnull, a, hread, rfl⟩)⟩
  | none =>
    cases h with
    | plain => exact Or.inl ⟨rfl, rfl⟩
    | onto v _ =>
      cases v with
      | none => exact Or.inl ⟨rfl, rfl⟩
      | some v =>
        cases v with
        | null => exact Or.inr ⟨.null, rfl, rfl⟩
        | _ => exact Or.inl ⟨rfl, rfl⟩

theorem written_array {items : List Json} (h : Written (some (.array items)) found) :
    Shape.OrAbsent Shape.list [] found items := by
  cases h with
  | plain => exact Or.inr ⟨_, rfl, rfl⟩
  | onto v _ =>
    cases v with
    | none =>
      cases items with
      | nil => exact Or.inl ⟨rfl, rfl⟩
      | cons v items => exact Or.inr ⟨_, rfl, rfl⟩
    | some v => exact Or.inr ⟨_, congrArg some (overlayValue_of_not_object (Or.inr rfl)), rfl⟩

theorem written_strings {ss : List String} (h : Written (some (strings ss)) found) :
    Shape.OrAbsent Shape.strings [] found ss := by
  rcases written_array h with ⟨hnone, hnil⟩ | ⟨v, hv, hlist⟩
  · exact Or.inl ⟨hnone, List.map_eq_nil_iff.mp hnil⟩
  · exact Or.inr ⟨v, hv, Shape.strings_eq_ok_iff.mpr (Shape.list_eq_ok_iff.mp hlist)⟩

end

/-! ## Labels -/

namespace Label

open Shape

/-- What a label that was read says about the members. -/
structure Reads (ms : Members) (l : Label) : Prop where
  classification : Members.get? ms "classification" = some (.string l.classification)
  releasabilityTo : OrAbsent Shape.strings [] (Members.get? ms "releasabilityTo") l.releasabilityTo
  coi : OrAbsent Shape.strings [] (Members.get? ms "COI") l.coi
  coiOperator : OrAbsent (optional string) none (Members.get? ms "coiOperator") l.coiOperator
  caveats : OrAbsent Shape.strings [] (Members.get? ms "caveats") l.caveats
  originatingCountry : Members.get? ms "originatingCountry" = some (.string l.originatingCountry)
  creationDate : OrAbsent (optional string) none (Members.get? ms "creationDate") l.creationDate
  displayMarking : OrAbsent (optional string) none (Members.get? ms "displayMarking") l.displayMarking
  extensions : l.extensions = ms.filter fun m => !fieldNames.contains m.1

variable {ms : Members} {l : Label}

theorem Reads.check (hd : Members.Distinct ms) (h : Reads ms l) : Shape.check wanted ms = .ok () := by
  apply (check_eq_ok_iff hd).mpr
  intro k r v hr hv
  unfold wanted at hr
  split at hr <;> cases hr
  · exact unit_string h.classification hv
  · exact h.releasabilityTo.unit hv
  · exact h.coi.unit hv
  · exact h.coiOperator.unit hv
  · exact h.caveats.unit hv
  · exact unit_string h.originatingCountry hv
  · exact h.creationDate.unit hv
  · exact h.displayMarking.unit hv

theorem ofMembers_eq_ok_iff (hd : Members.Distinct ms) : ofMembers ms = .ok l ↔ Reads ms l := by
  simp only [ofMembers, Except.bind_eq_ok_iff, field_eq_ok_iff, fieldOr_eq_ok_iff, string_eq_ok_iff, pure,
    Except.pure, Except.ok.injEq]
  constructor
  · intro hread
    obtain ⟨_, _, s, ⟨_, hs, rfl⟩, _, h2, _, h3, _, h4, _, h5, t, ⟨_, ht, rfl⟩, _, h7, _, h8, rfl⟩ := hread
    exact ⟨hs, h2, h3, h4, h5, ht, h7, h8, rfl⟩
  · intro h
    exact ⟨(), h.check hd, _, ⟨_, h.classification, rfl⟩, _, h.releasabilityTo, _, h.coi, _, h.coiOperator, _,
      h.caveats, _, ⟨_, h.originatingCountry, rfl⟩, _, h.creationDate, _, h.displayMarking, by rw [← h.extensions]⟩

/-- The value of a known member. -/
def value? (l : Label) (name : String) : Option Json :=
  match name with
  | "classification" => some (.string l.classification)
  | "releasabilityTo" => some (strings l.releasabilityTo)
  | "COI" => some (strings l.coi)
  | "coiOperator" => l.coiOperator.map .string
  | "caveats" => some (strings l.caveats)
  | "originatingCountry" => some (.string l.originatingCountry)
  | "creationDate" => l.creationDate.map .string
  | "displayMarking" => l.displayMarking.map .string
  | _ => none

theorem get?_optionalMember (name : String) (s : Option String) (k : String) :
    Members.get? (optionalMember name s) k = if name = k then s.map .string else none := by
  cases s <;> simp [optionalMember, Members.get?_cons]

theorem get?_known (k : String) : Members.get? l.known k = l.value? k := by
  simp only [known, Members.get?_append, Members.get?_cons, Members.get?_nil, get?_optionalMember]
  rw [value?.eq_def]
  by_cases h : k ∈ fieldNames
  · simp only [fieldNames, List.mem_cons, List.not_mem_nil, or_false] at h
    rcases h with rfl | rfl | rfl | rfl | rfl | rfl | rfl | rfl <;> simp
  · simp only [fieldNames, List.mem_cons, List.not_mem_nil, or_false, not_or] at h
    obtain ⟨h1, h2, h3, h4, h5, h6, h7, h8⟩ := h
    simp [Ne.symm h1, Ne.symm h2, Ne.symm h3, Ne.symm h4, Ne.symm h5, Ne.symm h6, Ne.symm h7, Ne.symm h8]

theorem distinct_known (l : Label) : Members.Distinct l.known := by
  obtain ⟨_, _, _, o, _, _, d, m, _⟩ := l
  cases o <;> cases d <;> cases m <;> simp [known, optionalMember, Members.Distinct, Members.keys]

theorem distinct_view (l : Label) : Members.Distinct l.view := (distinct_known l).foldl_put l.extensions

theorem get?_view (h : Members.Distinct l.extensions) (k : String) :
    Members.get? l.view k = (Members.get? l.extensions k).or (l.value? k) := by
  rw [view, Members.get?_foldl_put h, get?_known]

theorem value?_of_not_mem {k : String} (h : k ∉ fieldNames) : l.value? k = none := by
  simp only [fieldNames, List.mem_cons, List.not_mem_nil, or_false, not_or] at h
  obtain ⟨h1, h2, h3, h4, h5, h6, h7, h8⟩ := h
  simp [value?]

theorem get?_extensions_of_mem (h : ∀ k ∈ Members.keys l.extensions, k ∉ fieldNames) {k : String} (hk : k ∈ fieldNames) :
    Members.get? l.extensions k = none := Members.get?_eq_none_iff.mpr fun hmem => h k hmem hk

/-- Each field that was read leaves its member as it was. -/
theorem Reads.laid_value (h : Reads ms l) {k : String} (hk : k ∈ fieldNames) :
    laid (Members.get? ms k) (l.value? k) = Members.get? ms k := by
  simp only [fieldNames, List.mem_cons, List.not_mem_nil, or_false] at hk
  rcases hk with rfl | rfl | rfl | rfl | rfl | rfl | rfl | rfl <;> simp only [value?]
  · exact laid_string h.classification
  · exact laid_strings h.releasabilityTo
  · exact laid_strings h.coi
  · exact laid_optional h.coiOperator
  · exact laid_strings h.caveats
  · exact laid_string h.originatingCountry
  · exact laid_optional h.creationDate
  · exact laid_optional h.displayMarking

/-- A label that was read leaves the members as they were. -/
theorem Reads.overlay_view (hd : Distinct (.object ms)) (h : Reads ms l) : overlay ms l.view = ms := by
  obtain ⟨hms, -⟩ := distinct_object.mp hd
  have hextensions : Members.Distinct l.extensions := h.extensions ▸ hms.filter _
  apply overlay_eq_self hms (distinct_view l)
  intro k
  rw [get?_view hextensions, h.extensions, Members.get?_filter fun k => !fieldNames.contains k]
  by_cases hk : k ∈ fieldNames
  · simpa [hk] using h.laid_value hk
  · simp only [List.contains_eq_mem, hk, decide_false, Bool.not_false, if_true, value?_of_not_mem hk, Option.or_none]
    exact laid_self hd k

/-- A label is read back from members that its fields were written to. -/
theorem reads_of_written (h : ∀ k ∈ fieldNames, Written (l.value? k) (Members.get? ms k)) :
    Reads ms { l with extensions := ms.filter fun m => !fieldNames.contains m.1 } where
  classification := written_string (h "classification" (by decide))
  releasabilityTo := written_strings (h "releasabilityTo" (by decide))
  coi := written_strings (h "COI" (by decide))
  coiOperator := written_optional (fun s _ => gives_string s) (h "coiOperator" (by decide))
  caveats := written_strings (h "caveats" (by decide))
  originatingCountry := written_string (h "originatingCountry" (by decide))
  creationDate := written_optional (fun s _ => gives_string s) (h "creationDate" (by decide))
  displayMarking := written_optional (fun s _ => gives_string s) (h "displayMarking" (by decide))
  extensions := rfl

theorem ofJson_of_written (hd : Members.Distinct ms)
    (h : ∀ k ∈ fieldNames, Written (l.value? k) (Members.get? ms k)) : unit ofJson (.object ms) = .ok () := by
  have hread : ofMembers ms = .ok _ := (ofMembers_eq_ok_iff hd).mpr (reads_of_written h)
  exact unit_eq_ok_iff.mpr ⟨_, hread⟩

/-- Some label is read from a label that was written, whatever it was laid over. -/
theorem gives_view (he : Members.Distinct l.extensions) (hkeys : ∀ k ∈ Members.keys l.extensions, k ∉ fieldNames) :
    Gives (unit ofJson) (.object l.view) () := by
  have hview : ∀ k ∈ fieldNames, Members.get? l.view k = l.value? k := by
    intro k hk
    rw [get?_view he, get?_extensions_of_mem hkeys hk, Option.none_or]
  refine ⟨nofun, fun v hv => ?_⟩
  cases v with
  | object received =>
    obtain ⟨hr, hvalues⟩ := distinct_object.mp hv
    rw [overlayValue_object]
    refine ⟨nofun, ofJson_of_written (l := l) (distinct_overlay hr (distinct_view l)) fun k hk => ?_⟩
    rw [get?_overlay hr (distinct_view l), hview k hk]
    exact .onto _ fun x hx => hvalues _ (Members.mem_of_get? hx)
  | _ =>
    rw [overlayValue_of_not_object (Or.inl rfl)]
    refine ⟨nofun, ofJson_of_written (l := l) (distinct_view l) fun k hk => ?_⟩
    rw [hview k hk]
    exact .plain

end Label

/-! ## Signature blocks -/

namespace SignatureBlock

open Shape

/-- What a block that was read says about the members. -/
structure Reads (ms : Members) (b : SignatureBlock) : Prop where
  algorithm : Members.get? ms "algorithm" = some (.string b.algorithm)
  value : Members.get? ms "value" = some (.string b.value)
  signerId : Members.get? ms "signerId" = some (.string b.signerId)
  timestamp : Members.get? ms "timestamp" = some (.string b.timestamp)

variable {ms : Members} {b : SignatureBlock}

theorem Reads.check (hd : Members.Distinct ms) (h : Reads ms b) : Shape.check wanted ms = .ok () := by
  apply (check_eq_ok_iff hd).mpr
  intro k r v hr hv
  unfold wanted at hr
  split at hr <;> cases hr
  rename_i hk
  simp only [List.mem_cons, List.not_mem_nil, or_false] at hk
  rcases hk with rfl | rfl | rfl | rfl
  · exact unit_string h.algorithm hv
  · exact unit_string h.value hv
  · exact unit_string h.signerId hv
  · exact unit_string h.timestamp hv

theorem ofMembers_eq_ok_iff (hd : Members.Distinct ms) : ofMembers ms = .ok b ↔ Reads ms b := by
  simp only [ofMembers, Except.bind_eq_ok_iff, field_eq_ok_iff, string_eq_ok_iff, pure, Except.pure, Except.ok.injEq]
  constructor
  · intro hread
    obtain ⟨_, _, _, ⟨_, h1, rfl⟩, _, ⟨_, h2, rfl⟩, _, ⟨_, h3, rfl⟩, _, ⟨_, h4, rfl⟩, rfl⟩ := hread
    exact ⟨h1, h2, h3, h4⟩
  · intro h
    exact ⟨(), h.check hd, _, ⟨_, h.algorithm, rfl⟩, _, ⟨_, h.value, rfl⟩, _, ⟨_, h.signerId, rfl⟩, _,
      ⟨_, h.timestamp, rfl⟩, rfl⟩

theorem distinct_view (b : SignatureBlock) : Members.Distinct b.view := by
  simp [view, Members.Distinct, Members.keys]

theorem reads_view (b : SignatureBlock) : Reads b.view b := by
  constructor <;> simp [view, Members.get?_cons]

/-- A block that was written is read back, whatever it was laid over. -/
theorem gives_view (b : SignatureBlock) : Gives ofJson (.object b.view) b := by
  refine ⟨nofun, fun v hv => ?_⟩
  cases v with
  | object received =>
    obtain ⟨hr, -⟩ := distinct_object.mp hv
    have hget : ∀ {k s}, Members.get? b.view k = some (.string s) →
        Members.get? (overlay received b.view) k = some (.string s) := by
      intro k s hs
      rw [get?_overlay hr (distinct_view b), hs]
      exact written_string (.onto _ fun x hx => (distinct_object.mp hv).2 _ (Members.mem_of_get? hx))
    rw [overlayValue_object]
    exact ⟨nofun, (ofMembers_eq_ok_iff (distinct_overlay hr (distinct_view b))).mpr
      ⟨hget (reads_view b).algorithm, hget (reads_view b).value, hget (reads_view b).signerId,
        hget (reads_view b).timestamp⟩⟩
  | _ =>
    rw [overlayValue_of_not_object (Or.inl rfl)]
    exact ⟨nofun, (ofMembers_eq_ok_iff (distinct_view b)).mpr (reads_view b)⟩

end SignatureBlock

/-! ## Policies -/

namespace Policy

open Shape

/-- What a policy that was read says about the members. -/
structure Reads (ms : Members) (p : Policy) : Prop where
  version : Members.get? ms "policyVersion" = some (.string p.version)
  label : ∃ v, Members.get? ms "securityLabel" = some v ∧ Label.ofJson v = .ok p.label
  assertions : OrAbsent list [] (Members.get? ms "policyAssertions") p.assertions
  signature : OrAbsent (optional SignatureBlock.ofJson) none (Members.get? ms signatureField) p.signature
  extensions : p.extensions = ms.filter fun m => !fieldNames.contains m.1
  received : p.received = some ms

variable {ms : Members} {p : Policy}

theorem Reads.check (hd : Members.Distinct ms) (h : Reads ms p) : Shape.check wanted ms = .ok () := by
  apply (check_eq_ok_iff hd).mpr
  intro k r v hr hv
  unfold wanted at hr
  split at hr <;> cases hr
  · exact unit_string h.version hv
  · obtain ⟨w, hw, hl⟩ := h.label
    rw [hw] at hv
    cases hv
    exact unit_eq_ok_iff.mpr ⟨_, hl⟩
  · exact h.assertions.unit hv
  · exact h.signature.unit hv

theorem ofMembers_eq_ok_iff (hd : Members.Distinct ms) : ofMembers ms = .ok p ↔ Reads ms p := by
  simp only [ofMembers, Except.bind_eq_ok_iff, field_eq_ok_iff, fieldOr_eq_ok_iff, string_eq_ok_iff, pure, Except.pure,
    Except.ok.injEq]
  constructor
  · intro hread
    obtain ⟨_, _, _, ⟨_, h1, rfl⟩, _, h2, _, h3, _, h4, rfl⟩ := hread
    exact ⟨h1, h2, h3, h4, rfl, rfl⟩
  · intro h
    refine ⟨(), h.check hd, _, ⟨_, h.version, rfl⟩, _, h.label, _, h.assertions, _, h.signature, ?_⟩
    rw [← h.extensions, ← h.received]

/-- The value of a known member. -/
def value? (p : Policy) (name : String) : Option Json :=
  match name with
  | "policyVersion" => some (.string p.version)
  | "securityLabel" => some (.object p.label.view)
  | "policyAssertions" => some (.array p.assertions)
  | "policySignature" => p.signature.map fun b => .object b.view
  | _ => none

theorem get?_known (k : String) : Members.get? p.known k = p.value? k := by
  have hknown : p.known = [("policyVersion", .string p.version), ("securityLabel", .object p.label.view),
      ("policyAssertions", .array p.assertions)] ++ p.signature.toList.map fun b => (signatureField, .object b.view) := by
    cases hs : p.signature <;> simp [known, hs]
  have hsignature : Members.get? (p.signature.toList.map fun b => (signatureField, .object b.view)) k
      = if signatureField = k then p.signature.map fun b => .object b.view else none := by
    cases p.signature <;> simp [Members.get?_cons]
  simp only [hknown, Members.get?_append, Members.get?_cons, Members.get?_nil, hsignature]
  rw [value?.eq_def]
  by_cases h : k ∈ fieldNames
  · simp only [fieldNames, List.mem_cons, List.not_mem_nil, or_false] at h
    rcases h with rfl | rfl | rfl | rfl <;> simp [signatureField]
  · simp only [fieldNames, List.mem_cons, List.not_mem_nil, or_false, not_or] at h
    obtain ⟨h1, h2, h3, h4⟩ := h
    simp only [signatureField] at h4 ⊢
    simp [Ne.symm h1, Ne.symm h2, Ne.symm h3, Ne.symm h4]

theorem value?_of_not_mem {k : String} (h : k ∉ fieldNames) : p.value? k = none := by
  simp only [fieldNames, signatureField, List.mem_cons, List.not_mem_nil, or_false, not_or] at h
  obtain ⟨h1, h2, h3, h4⟩ := h
  simp [value?]

theorem distinct_known (p : Policy) : Members.Distinct p.known := by
  cases h : p.signature <;> simp [known, h, signatureField, Members.Distinct, Members.keys]

theorem distinct_view (p : Policy) : Members.Distinct p.view := (distinct_known p).foldl_put p.extensions

theorem get?_view (h : Members.Distinct p.extensions) (k : String) :
    Members.get? p.view k = (Members.get? p.extensions k).or (p.value? k) := by
  rw [view, Members.get?_foldl_put h, get?_known]

end Policy

end PolicySeal
