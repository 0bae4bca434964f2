import PolicySeal.Policy.Edit
import PolicySeal.Proofs.Policy.Canonical
import PolicySeal.Proofs.Policy.Fields
/-
  PolicySeal.Proofs.Policy.Made — the policies there can be, and the documents they are
  written as.

  A policy is read from a document or made in code, and then edited any number of times
  (`Made`). Through all of that no key stands twice in what it holds (`Made.keysOnce`), so
  none does in its document (`KeysOnce.distinct_document`). As long as no member it keeps
  has the name of a field, its document is accepted, with the signature block it has
  (`KeysOnce.reads_members`): which document it was read from plays no part in that.
-/

namespace PolicySeal

open Json

/-! ## Policies that are made -/

/-- What the edit brings in repeats no key. -/
def Edit.KeysOnce : Edit → Prop
  | .assertions items => ∀ v ∈ items, Distinct v
  | .extension _ value => ∀ v ∈ value, Distinct v
  | .labelExtension _ value => ∀ v ∈ value, Distinct v
  | _ => True

namespace Policy

/-- Read from a document or made in code, then edited. The values of documents and maps repeat no key. -/
inductive Made : Policy → Prop
  | read {v : Json} {p : Policy} : Distinct v → ofJson v = .ok p → Made p
  | new (version : String) (label : Label) : Distinct (.object label.extensions) → Made (new version label)
  | edit {p : Policy} (e : Edit) : e.KeysOnce → Made p → Made (e.apply p)

/-- Nothing the policy holds repeats a key. -/
structure KeysOnce (p : Policy) : Prop where
  extensions : Distinct (.object p.extensions)
  labelExtensions : Distinct (.object p.label.extensions)
  assertions : ∀ v ∈ p.assertions, Distinct v
  received : ∀ ms ∈ p.received, Distinct (.object ms)

end Policy

theorem distinct_filter {ms : Members} (h : Distinct (.object ms)) (f : String × Json → Bool) :
    Distinct (.object (ms.filter f)) := by
  obtain ⟨hms, hvalues⟩ := distinct_object.mp h
  exact distinct_object.mpr ⟨hms.filter f, fun m hm => hvalues m (List.mem_filter.mp hm).1⟩

theorem distinct_setMember {ms : Members} {key : String} {value : Option Json} (h : Distinct (.object ms))
    (hv : ∀ v ∈ value, Distinct v) : Distinct (.object (Edit.setMember ms key value)) := by
  cases value with
  | none => exact distinct_filter h _
  | some v =>
    obtain ⟨hms, hvalues⟩ := distinct_object.mp h
    refine distinct_object.mpr ⟨hms.put key v, fun m hm => ?_⟩
    rcases Members.mem_put hm with rfl | hm
    · exact hv v rfl
    · exact hvalues m hm

namespace Policy

/-- A label that was read keeps no key twice. -/
theorem distinct_label_of_ofJson {v : Json} {l : Label} (hv : Distinct v) (h : Label.ofJson v = .ok l) :
    Distinct (.object l.extensions) := by
  cases v with
  | object ms =>
    have hreads := (Label.ofMembers_eq_ok_iff (distinct_object.mp hv).1).mp h
    rw [hreads.extensions]
    exact distinct_filter hv _
  | _ => cases h

theorem Reads.keysOnce {ms : Members} {p : Policy} (hd : Distinct (.object ms)) (h : Reads ms p) : KeysOnce p := by
  have hvalues := (distinct_object.mp hd).2
  constructor
  · rw [h.extensions]
    exact distinct_filter hd _
  · obtain ⟨v, hv, hl⟩ := h.label
    exact distinct_label_of_ofJson (hvalues _ (Members.mem_of_get? hv)) hl
  · rcases h.assertions with ⟨_, hnil⟩ | ⟨v, hv, hl⟩
    · rw [hnil]
      exact fun _ hv => nomatch hv
    · rw [Shape.list_eq_ok_iff.mp hl] at hv
      exact distinct_array.mp (hvalues _ (Members.mem_of_get? hv))
  · rw [h.received]
    rintro _ ⟨⟩
    exact hd

/-- One edit keeps it so. -/
theorem KeysOnce.apply {p : Policy} (hp : KeysOnce p) {e : Edit} (he : e.KeysOnce) : KeysOnce (e.apply p) := by
  cases e with
  | assertions items => exact { hp with assertions := he }
  | extension key value => exact { hp with extensions := distinct_setMember hp.extensions he }
  | labelExtension key value => exact { hp with labelExtensions := distinct_setMember hp.labelExtensions he }
  | signature block => cases block <;> exact { hp with }
  | _ => exact { hp with }

/-- So it is of every policy. -/
theorem Made.keysOnce {p : Policy} (h : Made p) : KeysOnce p := by
  induction h with
  | @read v p hv h =>
    cases v with
    | object ms => exact ((ofMembers_eq_ok_iff (distinct_object.mp hv).1).mp h).keysOnce hv
    | _ => cases h
  | new version label hl =>
    exact ⟨distinct_object.mpr ⟨Members.distinct_nil, fun _ h => nomatch h⟩, hl, fun _ h => (nomatch h), fun _ h => nomatch h⟩
  | edit e he _ ih => exact ih.apply he

/-- Any number of edits may follow. -/
theorem Made.edits {p : Policy} (h : Made p) {es : List Edit} (hes : ∀ e ∈ es, e.KeysOnce) :
    Made (es.foldl Edit.apply p) := by
  induction es generalizing p with
  | nil => exact h
  | cons e es ih =>
    obtain ⟨he, hes⟩ := List.forall_mem_cons.mp hes
    exact ih (.edit e he h) hes

/-- What is read from a text is read from a value. -/
theorem made_of_ofText {text : String} {p : Policy} (h : ofText text = .ok p) : Made p := by
  have hplain := Draft.plain_ofTokens (Token.ofText text.toList)
  obtain ⟨hread, -⟩ := Draft.readText_eq_ok_iff.mp h
  generalize (Draft.ofTokens (Token.ofText text.toList)).1 = d at hplain hread
  cases d with
  | object members =>
    simp only [ofDraft] at hread
    split at hread
    · rename_i v hv
      cases hof : ofJson v with
      | ok q =>
        rw [hof] at hread
        cases hread
        exact .read (hplain.distinct_value _ v hv) hof
      | error e =>
        rw [hof] at hread
        cases hread
    · cases hread
  | _ => cases hread

/-! ## Documents -/

variable {p : Policy}

/-- The members a policy keeps, and those its label keeps, have no names of fields. -/
def ExtensionsApart (p : Policy) : Prop :=
  (∀ k ∈ Members.keys p.extensions, k ∉ fieldNames) ∧ ∀ k ∈ Members.keys p.label.extensions, k ∉ Label.fieldNames

theorem distinct_of_get? {ms : Members} (hms : Members.Distinct ms)
    (h : ∀ k v, Members.get? ms k = some v → Distinct v) : Distinct (.object ms) :=
  distinct_object.mpr ⟨hms, fun m hm => h m.1 m.2 (hms.get?_of_mem hm)⟩

theorem distinct_get?_of_object {ms : Members} (h : Distinct (.object ms)) {k : String} {v : Json}
    (hv : Members.get? ms k = some v) : Distinct v := (distinct_object.mp h).2 _ (Members.mem_of_get? hv)

theorem distinct_label_view {l : Label} (h : Distinct (.object l.extensions)) : Distinct (.object l.view) := by
  apply distinct_of_get? (Label.distinct_view l)
  intro k v hv
  rw [Label.get?_view (distinct_object.mp h).1] at hv
  rcases Option.or_eq_some_iff.mp hv with hv | ⟨_, hv⟩
  · exact distinct_get?_of_object h hv
  · unfold Label.value? at hv
    split at hv <;> simp only [Option.map_eq_some_iff, Option.some.injEq, reduceCtorEq] at hv
    any_goals
      subst hv
      simp
    all_goals
      obtain ⟨s, -, rfl⟩ := hv
      simp

theorem KeysOnce.distinct_value (hp : KeysOnce p) {k : String} {v : Json} (hv : p.value? k = some v) : Distinct v := by
  unfold value? at hv
  split at hv
  · cases hv
    exact distinct_string _
  · cases hv
    exact distinct_label_view hp.labelExtensions
  · cases hv
    exact distinct_array.mpr hp.assertions
  · obtain ⟨b, -, rfl⟩ := Option.map_eq_some_iff.mp hv
    exact distinct_object.mpr ⟨SignatureBlock.distinct_view b, by simp [SignatureBlock.view]⟩
  · cases hv

theorem KeysOnce.distinct_view (hp : KeysOnce p) : Distinct (.object p.view) := by
  apply distinct_of_get? (Policy.distinct_view p)
  intro k v hv
  rw [get?_view (distinct_object.mp hp.extensions).1] at hv
  rcases Option.or_eq_some_iff.mp hv with hv | ⟨_, hv⟩
  · exact distinct_get?_of_object hp.extensions hv
  · exact hp.distinct_value hv

/-- No key stands twice in the document of a policy. -/
theorem KeysOnce.distinct_document (hp : KeysOnce p) : Distinct p.document := by
  rw [document, members]
  cases hr : p.received with
  | none => exact hp.distinct_view
  | some received =>
    have := distinct_overlayValue (.object received) (.object p.view) (hp.received received hr) hp.distinct_view
    rwa [overlayValue_object] at this

/-- A lookup in the document of a policy. -/
theorem KeysOnce.get?_members (hp : KeysOnce p) (k : String) : Members.get? p.members k =
    match p.received with
    | some received => laid (Members.get? received k) (Members.get? p.view k)
    | none => Members.get? p.view k := by
  rw [members]
  cases hr : p.received with
  | none => rfl
  | some received =>
    exact get?_overlay (distinct_object.mp (hp.received received hr)).1 (Policy.distinct_view p) k

/-- The signed bytes are the same when the documents are, signature blocks and top-level order apart. -/
theorem KeysOnce.signedBytes_eq_iff {q : Policy} (hp : KeysOnce p) (hq : KeysOnce q) : p.signedBytes = q.signedBytes ↔
    ∀ k, k ≠ signatureField → Members.get? p.members k = Members.get? q.members k := by
  have hp' := (distinct_object.mp hp.distinct_document).1
  have hq' := (distinct_object.mp hq.distinct_document).1
  have hbytes : p.signedBytes = q.signedBytes ↔ p.canonical = q.canonical :=
    ⟨Text.utf8_injective, fun h => by rw [signedBytes, signedBytes, h]⟩
  have herase : ∀ (ms : Members) (k : String),
      Members.get? (Members.erase ms signatureField) k = if k = signatureField then none else Members.get? ms k := by
    intro ms k
    rw [Members.erase, Members.get?_filter fun k => k != signatureField]
    by_cases hk : k = signatureField <;> simp [hk]
  rw [hbytes, canonical, canonical, Canonical.text_eq_iff, Canonical.members_eq_iff hp' hq']
  simp only [herase]
  refine forall_congr' fun k => ?_
  by_cases hk : k = signatureField <;> simp [hk]

theorem KeysOnce.get?_view_of_mem (hp : KeysOnce p) (hapart : ExtensionsApart p) {k : String} (hk : k ∈ fieldNames) :
    Members.get? p.view k = p.value? k := by
  have hnone : Members.get? p.extensions k = none := Members.get?_eq_none_iff.mpr fun hmem => hapart.1 k hmem hk
  rw [get?_view (distinct_object.mp hp.extensions).1, hnone, Option.none_or]

theorem KeysOnce.get?_view_of_not_mem (hp : KeysOnce p) {k : String} (hk : k ∉ fieldNames) :
    Members.get? p.view k = Members.get? p.extensions k := by
  rw [get?_view (distinct_object.mp hp.extensions).1, value?_of_not_mem hk, Option.or_none]

theorem KeysOnce.get?_label_view_of_not_mem (hp : KeysOnce p) {k : String} (hk : k ∉ Label.fieldNames) :
    Members.get? p.label.view k = Members.get? p.label.extensions k := by
  rw [Label.get?_view (distinct_object.mp hp.labelExtensions).1, Label.value?_of_not_mem hk, Option.or_none]

/-- Each field is written to its member. -/
theorem KeysOnce.written_members (hp : KeysOnce p) (hapart : ExtensionsApart p) {k : String} (hk : k ∈ fieldNames) :
    Written (p.value? k) (Members.get? p.members k) := by
  rw [hp.get?_members, hp.get?_view_of_mem hapart hk]
  cases hr : p.received with
  | none => exact .plain
  | some received => exact .onto _ fun x hx => distinct_get?_of_object (hp.received received hr) hx

/-- The document of a policy is accepted, with the signature block of the policy. -/
theorem KeysOnce.reads_members (hp : KeysOnce p) (hapart : ExtensionsApart p) :
    ∃ q, Reads p.members q ∧ q.signature = p.signature := by
  have hlabel : Gives (Shape.unit Label.ofJson) (.object p.label.view) () :=
    Label.gives_view (distinct_object.mp hp.labelExtensions).1 hapart.2
  obtain ⟨v, hv, -, hread⟩ := hlabel.written (hp.written_members hapart (k := "securityLabel") (by decide))
  obtain ⟨l, hl⟩ := Shape.unit_eq_ok_iff.mp hread
  refine ⟨⟨p.version, l, p.assertions, p.signature, p.members.filter fun m => !fieldNames.contains m.1, some p.members⟩,
    ?_, rfl⟩
  constructor
  · exact written_string (hp.written_members hapart (k := "policyVersion") (by decide))
  · exact ⟨v, hv, hl⟩
  · exact written_array (hp.written_members hapart (k := "policyAssertions") (by decide))
  · exact written_optional (fun b _ => SignatureBlock.gives_view b)
      (hp.written_members hapart (k := signatureField) (by decide))
  · rfl
  · rfl

end Policy

end PolicySeal
