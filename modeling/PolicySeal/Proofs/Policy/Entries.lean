import PolicySeal.Proofs.Policy.Canonical
import PolicySeal.Proofs.Policy.Extensions
/-
  PolicySeal.Proofs.Policy.Entries — the members kept besides the fields, under any names.

  Nothing keeps such a member from having the name of a field. It is then written in place of
  the field, at the top and in the label alike: a field comes out where no member is kept under
  its name, and only there. What is kept is signed, with two exceptions: a member that has the
  name of the signature block is written and not signed, and an empty array is not even written
  where a document was received that does not have the member (`entries_written`). The one policy
  of `collidingPolicy` shows all three.
-/

namespace PolicySeal

open Json

/-! ## Signed members -/

theorem Canonical.get?_members {ms : Members} (hms : Members.Distinct ms) (k : String) :
    Members.get? (Canonical.members ms) k = if k = signatureField then none else Members.get? ms k := by
  have hperm := Canonical.members_perm ms
  have hdistinct : Members.Distinct (Canonical.members ms) :=
    (hperm.map Prod.fst).nodup_iff.mpr (hms.erase signatureField)
  rw [(Members.perm_iff_get? hdistinct (hms.erase signatureField)).mp hperm k, Members.erase,
    Members.get?_filter fun j => j != signatureField]
  by_cases hk : k = signatureField <;> simp [hk]

theorem isSome_laid_iff {received : Option Json} {v : Json} :
    (laid received (some v)).isSome = true ↔ ¬ (v = .array [] ∧ received = none) := by
  cases received with
  | some r => simp [laid, kept]
  | none =>
    by_cases hv : v = .array []
    · simp [hv, laid]
    · simp [hv, laid_none_some hv]

/-- Where there is nothing to be written, there is nothing or a null that was received. -/
theorem written_none {found : Option Json} (h : Written none found) : found = none ∨ found = some .null := by
  cases h with
  | plain => exact .inl rfl
  | onto v _ =>
    cases v with
    | none => exact .inl rfl
    | some v => cases v <;> simp [laid, kept]

namespace Policy

variable {p : Policy} {k : String} {v : Json}

namespace Place

/-- The member of a key among those that are signed. -/
def signed? (place : Place) (p : Policy) (k : String) : Option Json :=
  place.in? k (.object (Canonical.members p.members))

/-- The name of the signature block, where there is one. -/
def IsBlock (place : Place) (k : String) : Prop := place = .policy ∧ k = signatureField

/-- An empty array, and a document was received that does not have the member. -/
def Dropped (place : Place) (p : Policy) (k : String) (v : Json) : Prop :=
  v = .array [] ∧ ∃ ms, p.received = some ms ∧ place.in? k (.object ms) = none

/-- All that is written but the signature block is signed. -/
theorem signed?_eq (place : Place) (hp : KeysOnce p) (hblock : ¬ place.IsBlock k) :
    place.signed? p k = place.in? k p.document := by
  have hlookup := Canonical.get?_members (distinct_object.mp hp.distinct_document).1
  cases place with
  | policy =>
    have hk : k ≠ signatureField := fun e => hblock ⟨rfl, e⟩
    simp only [signed?, in?, path, document, List.nil_append, at?_cons, at?_nil, member?_object, hlookup, if_neg hk]
  | label =>
    have hne : "securityLabel" ≠ signatureField := by decide
    simp only [signed?, in?, path, document, List.cons_append, List.nil_append, at?_cons, at?_nil, member?_object,
      hlookup, if_neg hne]

theorem signed?_block (hp : KeysOnce p) : Place.policy.signed? p signatureField = none := by
  have hlookup := Canonical.get?_members (distinct_object.mp hp.distinct_document).1
  simp only [signed?, in?, path, List.nil_append, at?_cons, at?_nil, member?_object, hlookup, if_pos]

theorem written_in? (place : Place) (hp : Made p) (hshown : place.Shown p) (k : String) :
    Written (place.toWrite p k) (place.in? k p.document) := by
  rw [place.in?_eq hp hshown]
  cases hr : p.received with
  | none => exact .plain
  | some ms => exact .onto _ (place.distinct_in? (hp.keysOnce.received ms hr))

theorem toWrite_of_held (place : Place) (hheld : Members.get? (place.held p) k = some v) :
    place.toWrite p k = some v := by rw [toWrite, hheld, Option.some_or]

/-- A member that is kept is written unless it is dropped. -/
theorem isSome_in?_iff (place : Place) (hp : Made p) (hshown : place.Shown p)
    (hheld : Members.get? (place.held p) k = some v) :
    (place.in? k p.document).isSome = true ↔ ¬ place.Dropped p k v := by
  rw [place.in?_eq hp hshown, place.toWrite_of_held hheld]
  cases hr : p.received with
  | none => simp [Dropped, hr]
  | some ms => simp [Dropped, hr, isSome_laid_iff]

/-- A member that is kept is signed unless it is dropped or has the name of the block. -/
theorem signed_iff (place : Place) (hp : Made p) (hshown : place.Shown p)
    (hheld : Members.get? (place.held p) k = some v) :
    (∃ w, place.signed? p k = some w ∧ Written (some v) (some w)) ↔ ¬ place.IsBlock k ∧ ¬ place.Dropped p k v := by
  by_cases hblock : place.IsBlock k
  · obtain ⟨rfl, rfl⟩ := hblock
    simp [signed?_block hp.keysOnce, IsBlock]
  · rw [place.signed?_eq hp.keysOnce hblock, ← place.isSome_in?_iff hp hshown hheld]
    have hwritten := place.written_in? hp hshown k
    rw [place.toWrite_of_held hheld] at hwritten
    constructor
    · rintro ⟨w, hw, -⟩
      exact ⟨hblock, by rw [hw]; rfl⟩
    · rintro ⟨-, hsome⟩
      obtain ⟨w, hw⟩ := Option.isSome_iff_exists.mp hsome
      exact ⟨w, hw, hw ▸ hwritten⟩

end Place

/-! ## The signature block -/

/-- Where no other member has its name, the block is there exactly when the policy is signed; what there may be in its
place is a null that was received. -/
theorem block_written (hp : Made p) (hfree : Members.get? p.extensions signatureField = none) :
    if p.isSigned then ∃ ms, Members.get? p.members signatureField = some (.object ms)
    else Members.get? p.members signatureField = none ∨ Members.get? p.members signatureField = some .null := by
  have hwritten : Written (p.signature.map fun b => .object b.view) (Members.get? p.members signatureField) := by
    have := Place.policy.written_in? hp trivial signatureField
    rwa [Place.toWrite, Place.held, hfree, Option.none_or] at this
  cases hs : p.signature with
  | some b =>
    rw [hs] at hwritten
    obtain ⟨ms, hms, -⟩ := written_block hwritten
    rw [isSigned, hs]
    exact ⟨ms, hms⟩
  | none =>
    rw [hs] at hwritten
    rw [isSigned, hs]
    exact written_none hwritten

/-! ## Under any names -/

/-- Whatever names the members have that a policy keeps besides its fields, at the top or in its label: a name stands
for the member that is kept under it, and for the field exactly where there is none. Such a member is signed unless it
has the name of the signature block or is an empty array that is dropped. The block itself is there exactly when the
policy is signed, as long as no other member has its name. -/
theorem entries_written (p : Policy) (hp : Made p) :
    (∀ place : Place, place.Shown p → ∀ k,
      Written ((Members.get? (place.held p) k).or (place.value? p k)) (place.in? k p.document) ∧
      ∀ v, Members.get? (place.held p) k = some v →
        ((∃ w, place.signed? p k = some w ∧ Written (some v) (some w)) ↔
          ¬ place.IsBlock k ∧ ¬ place.Dropped p k v)) ∧
    (Members.get? p.extensions signatureField = none →
      if p.isSigned then ∃ ms, Members.get? p.members signatureField = some (.object ms)
      else Members.get? p.members signatureField = none ∨ Members.get? p.members signatureField = some .null) := by
  refine ⟨fun place hshown k => ?_, block_written hp⟩
  exact ⟨place.written_in? hp hshown k, fun v hheld => place.signed_iff hp hshown hheld⟩

/-- The policy of `unorderedDocument` with three members set: one named like a field, one like the block, and one that
is an empty array. -/
def collidingPolicy : Policy :=
  [Edit.extension "policyVersion" (some (.string "9.9")), .extension signatureField (some (.string "none")),
    .extension "x" (some (.array []))].foldl Edit.apply unorderedPolicy

theorem made_collidingPolicy : Made collidingPolicy := by
  refine Made.edits (.read distinct_unorderedDocument rfl) fun e he => ?_
  simp only [List.mem_cons, List.not_mem_nil, or_false] at he
  rcases he with rfl | rfl | rfl <;> rintro v ⟨⟩ <;> simp

/-- The member that is named like a field is signed in its place; of the other two, neither is. -/
theorem collidingPolicy_signed :
    Place.policy.in? "policyVersion" collidingPolicy.document = some (.string "9.9") ∧
      (∃ w, Place.policy.signed? collidingPolicy "policyVersion" = some w ∧ Written (some (.string "9.9")) (some w)) ∧
      (∀ k ∈ [signatureField, "x"], ∀ v, Members.get? collidingPolicy.extensions k = some v →
        ¬ ∃ w, Place.policy.signed? collidingPolicy k = some w ∧ Written (some v) (some w)) := by
  obtain ⟨hwritten, -⟩ := entries_written collidingPolicy made_collidingPolicy
  obtain ⟨hversion, hsigned⟩ := hwritten .policy trivial "policyVersion"
  refine ⟨written_string hversion, (hsigned _ rfl).mpr ⟨?_, ?_⟩, fun k hk v hheld hex => ?_⟩
  · rintro ⟨-, hname⟩
    exact absurd hname (by decide)
  · rintro ⟨harray, -⟩
    cases harray
  · obtain ⟨hblock, hdropped⟩ := ((hwritten .policy trivial k).2 v hheld).mp hex
    simp only [List.mem_cons, List.not_mem_nil, or_false] at hk
    rcases hk with rfl | rfl
    · exact hblock ⟨rfl, rfl⟩
    · cases hheld
      exact hdropped ⟨rfl, unorderedDocument, rfl, rfl⟩

/-- So a version is written and signed that is not that of the policy, a block is written though it is not signed, and
two members that it keeps are not signed. -/
theorem collidingPolicy_disagrees :
    (collidingPolicy.version = "1.0" ∧
        Members.get? collidingPolicy.members "policyVersion" = some (.string "9.9")) ∧
      (collidingPolicy.isSigned = false ∧
        Members.get? collidingPolicy.members signatureField = some (.string "none")) ∧
      Members.get? collidingPolicy.extensions signatureField = some (.string "none") ∧
      Members.get? (Canonical.members collidingPolicy.members) signatureField = none ∧
      Members.get? collidingPolicy.extensions "x" = some (.array []) ∧
      Members.get? (Canonical.members collidingPolicy.members) "x" = none := by
  have hlookup := Canonical.get?_members (distinct_object.mp made_collidingPolicy.keysOnce.distinct_document).1
  refine ⟨⟨rfl, rfl⟩, ⟨rfl, rfl⟩, rfl, ?_, rfl, ?_⟩
  · rw [hlookup, if_pos rfl]
  · rw [hlookup, if_neg (by decide)]
    rfl

end Policy

end PolicySeal
