import PolicySeal.Policy.Canonical
import PolicySeal.Proofs.Policy.Fields
/-
  PolicySeal.Proofs.Policy.Received — a policy that was read is written as it was received.

  The fields of a policy are laid over the document it was read from. Each of them leaves
  its member as it was, down to the members of the label, and what is no field is laid over
  itself; so the document comes out member by member, in its order. Only the signature
  block may be written in another form (`document_of_ofJson`), and the signed bytes are
  those of the received document.
-/

namespace PolicySeal

open Json

variable {ms : Members} {p : Policy}

namespace Policy

theorem Reads.distinct_extensions (hd : Members.Distinct ms) (h : Reads ms p) : Members.Distinct p.extensions :=
  h.extensions ▸ hd.filter _

/-! ## Member by member -/

/-- The label that was read leaves its member as it was. -/
theorem Reads.laid_label (hd : Distinct (.object ms)) (h : Reads ms p) :
    laid (Members.get? ms "securityLabel") (some (.object p.label.view)) = Members.get? ms "securityLabel" := by
  obtain ⟨v, hv, hl⟩ := h.label
  have hdistinct : Distinct v := (distinct_object.mp hd).2 _ (Members.mem_of_get? hv)
  rw [hv]
  cases v with
  | object lms =>
    have hreads := (Label.ofMembers_eq_ok_iff (distinct_object.mp hdistinct).1).mp hl
    simp only [laid, kept, overlayValue_object, hreads.overlay_view hdistinct]
  | _ => cases hl

/-- So does every other field but the signature block. -/
theorem Reads.laid_value (hd : Distinct (.object ms)) (h : Reads ms p) {k : String} (hk : k ∈ fieldNames)
    (hs : k ≠ signatureField) : laid (Members.get? ms k) (p.value? k) = Members.get? ms k := by
  simp only [fieldNames, List.mem_cons, List.not_mem_nil, or_false] at hk
  rcases hk with rfl | rfl | rfl | rfl
  · exact laid_string h.version
  · exact h.laid_label hd
  · exact laid_array h.assertions
  · exact absurd rfl hs

/-- A member that is not the signature block comes out as it was received. -/
theorem Reads.laid_view (hd : Distinct (.object ms)) (h : Reads ms p) {k : String} (hs : k ≠ signatureField) :
    laid (Members.get? ms k) (Members.get? p.view k) = Members.get? ms k := by
  obtain ⟨hms, -⟩ := distinct_object.mp hd
  rw [get?_view (h.distinct_extensions hms), h.extensions, Members.get?_filter fun k => !fieldNames.contains k]
  by_cases hk : k ∈ fieldNames
  · simpa [hk] using h.laid_value hd hk hs
  · simp only [List.contains_eq_mem, hk, decide_false, Bool.not_false, if_true, value?_of_not_mem hk, Option.or_none]
    exact laid_self hd k

theorem Reads.get?_view_signature (hd : Members.Distinct ms) (h : Reads ms p) :
    Members.get? p.view signatureField = p.signature.map fun b => .object b.view := by
  have hnone : Members.get? p.extensions signatureField = none := by
    rw [h.extensions, Members.get?_filter fun k => !fieldNames.contains k]
    rfl
  rw [get?_view (h.distinct_extensions hd), hnone]
  rfl

/-- Without a block, or with null in its place, there is no signature. -/
theorem Reads.signature_eq_none_iff (h : Reads ms p) :
    p.signature = none ↔ Members.get? ms signatureField = none ∨ Members.get? ms signatureField = some .null := by
  rcases h.signature with ⟨hnone, hsig⟩ | ⟨v, hv, hread⟩
  · simp [hnone, hsig]
  · rcases Shape.optional_eq_ok_iff.mp hread with ⟨hnull, hsig⟩ | ⟨hnull, b, _, hsig⟩
    · simp [hv, hnull, hsig]
    · simp [hv, hnull, hsig]

/-- A received signature member stays in its place. -/
theorem Reads.kept_signature (hd : Members.Distinct ms) (h : Reads ms p) {v : Json}
    (hv : Members.get? ms signatureField = some v) :
    ∃ w, kept v (Members.get? p.view signatureField) = some w := by
  rw [h.get?_view_signature hd]
  cases hs : p.signature with
  | some b => exact ⟨_, rfl⟩
  | none =>
    rcases h.signature_eq_none_iff.mp hs with hnone | hnull
    · rw [hv] at hnone
      cases hnone
    · rw [hv] at hnull
      cases hnull
      exact ⟨.null, rfl⟩

end Policy

/-! ## The document as a whole -/

/-- Members in the same order with the same values, that of the signature member excepted. -/
def SameButSignature (ms ns : Members) : Prop :=
  List.Forall₂ (fun m n => m.1 = n.1 ∧ (m.1 ≠ signatureField → m.2 = n.2)) ms ns

theorem SameButSignature.filter_eq {ns : Members} (h : SameButSignature ms ns) :
    (ms.filter fun m => m.1 != signatureField) = ns.filter fun n => n.1 != signatureField := by
  induction h with
  | nil => rfl
  | @cons m n ms ns hmn _ ih =>
    obtain ⟨hkey, hvalue⟩ := hmn
    by_cases hs : m.1 = signatureField
    · rw [List.filter_cons_of_neg (by simp [hs]), List.filter_cons_of_neg (by simp [← hkey, hs]), ih]
    · have hmn : m = n := Prod.ext hkey (hvalue hs)
      subst hmn
      rw [List.filter_cons_of_pos (by simp [hs]), List.filter_cons_of_pos (by simp [hs]), ih]

/-- Documents that differ in their signature members only have one canonical text. -/
theorem SameButSignature.text_eq {ns : Members} (h : SameButSignature ms ns) : Canonical.text ms = Canonical.text ns := by
  rw [Canonical.text, Canonical.members, h.filter_eq]
  rfl

namespace Policy

theorem Reads.members_eq (h : Reads ms p) : p.members = overlay ms p.view := by
  rw [members, h.received]

theorem Reads.same_members (hd : Distinct (.object ms)) (h : Reads ms p) : SameButSignature ms p.members := by
  obtain ⟨hms, -⟩ := distinct_object.mp hd
  rw [h.members_eq]
  refine overlay_forall₂ (q := fun k v w => k ≠ signatureField → v = w) hms (distinct_view p) (fun k v hv => ?_) fun k hk => ?_
  · by_cases hs : k = signatureField
    · subst hs
      obtain ⟨w, hw⟩ := h.kept_signature hms hv
      exact ⟨w, hw, fun hne => absurd rfl hne⟩
    · have hlaid := h.laid_view hd hs
      rw [hv] at hlaid
      exact ⟨v, hlaid, fun _ => rfl⟩
  · by_cases hs : k = signatureField
    · subst hs
      rw [h.get?_view_signature hms, h.signature_eq_none_iff.mpr (Or.inl hk)]
      rfl
    · have hlaid := h.laid_view hd hs
      rwa [hk] at hlaid

theorem Reads.members_eq_received (hd : Distinct (.object ms)) (h : Reads ms p) (hs : p.signature = none) :
    p.members = ms := by
  obtain ⟨hms, -⟩ := distinct_object.mp hd
  rw [h.members_eq]
  apply overlay_eq_self hms (distinct_view p)
  intro k
  by_cases hk : k = signatureField
  · subst hk
    rw [h.get?_view_signature hms, hs]
    rcases h.signature_eq_none_iff.mp hs with hnone | hnull
    · rw [hnone]
      rfl
    · rw [hnull]
      rfl
  · exact h.laid_view hd hk

/-- A policy that was read is written as the document it was read from, in the order and with the values it
was received with, but for the signature member; without a block it is written as exactly that document.
Its signed bytes are those of the received document. -/
theorem document_of_ofJson (hd : Distinct (.object ms)) (h : ofJson (.object ms) = .ok p) :
    (∃ ns, p.document = .object ns ∧ SameButSignature ms ns) ∧
      (Members.get? ms signatureField = none ∨ Members.get? ms signatureField = some .null →
        p.document = .object ms) ∧
      (Canonical.ofDocument (.object ms)).map Text.utf8 = .ok p.signedBytes := by
  have hreads : Reads ms p := (ofMembers_eq_ok_iff (distinct_object.mp hd).1).mp h
  have hsame := hreads.same_members hd
  refine ⟨⟨_, rfl, hsame⟩, fun hs => ?_, ?_⟩
  · rw [document, hreads.members_eq_received hd (hreads.signature_eq_none_iff.mpr hs)]
  · rw [Canonical.ofDocument, hsame.text_eq]
    rfl

/-- A document with the fields out of order, arrays left out, nulls, and members that are no fields. -/
def unorderedDocument : Members :=
  [("note", .null), (signatureField, .null),
    ("securityLabel", .object [("originatingCountry", .string "NLD"), ("caveats", .array []), ("creationDate", .null),
      ("level", .object [("b", .bool true), ("a", .array [])]), ("classification", .string "SECRET")]),
    ("policyVersion", .string "1.0")]

theorem distinct_unorderedDocument : Distinct (.object unorderedDocument) := by
  simp [unorderedDocument, distinct_object, Members.Distinct, Members.keys, signatureField]

theorem unorderedDocument_comes_back :
    ∃ p, ofJson (.object unorderedDocument) = .ok p ∧ p.document = .object unorderedDocument := by
  have hd : Distinct (.object unorderedDocument) := by
    simp [unorderedDocument, distinct_object, Members.Distinct, Members.keys, signatureField]
  have hread : ∃ p, ofJson (.object unorderedDocument) = .ok p := ⟨_, rfl⟩
  obtain ⟨p, hp⟩ := hread
  exact ⟨p, hp, (document_of_ofJson hd hp).2.1 (Or.inr rfl)⟩

end Policy

end PolicySeal
