import PolicySeal.Proofs.Policy.Transport
/-
  PolicySeal.Proofs.Policy.Agreement — the signed bytes of a policy tell its fields.

  A policy whose fields are edited, but not the members kept besides them (`Filled`), keeps
  those members as they were received (`KeepsReceived`). So its document tells all of it:
  each field was written to its member, and the other members are the kept ones, at the top
  and in the label (`Label.WrittenAs`). It plays no part which documents two policies were
  read from: if their signed bytes are the same, so is what they say (`Agrees`). Where two
  that differ are accepted with one signature block, their signed bytes are two messages with
  one tag (`signedBytes_tell_fields`).
-/

namespace PolicySeal

open Json

/-! ## Agreement -/

/-- The same fields, and the same members besides. -/
structure Label.Agrees (l m : Label) : Prop where
  classification : l.classification = m.classification
  releasabilityTo : l.releasabilityTo = m.releasabilityTo
  coi : l.coi = m.coi
  coiOperator : l.coiOperator = m.coiOperator
  caveats : l.caveats = m.caveats
  originatingCountry : l.originatingCountry = m.originatingCountry
  creationDate : l.creationDate = m.creationDate
  displayMarking : l.displayMarking = m.displayMarking
  extensions : ∀ k, Members.get? l.extensions k = Members.get? m.extensions k

/-- The same apart from the signature block and from the layout they are written in. -/
structure Policy.Agrees (p q : Policy) : Prop where
  version : p.version = q.version
  label : p.label.Agrees q.label
  assertions : p.assertions = q.assertions
  extensions : ∀ k, Members.get? p.extensions k = Members.get? q.extensions k

/-! ## Labels -/

/-- The members a label is written as: its fields, and what it keeps besides. -/
structure Label.WrittenAs (l : Label) (ms : Members) : Prop where
  distinct : Members.Distinct ms
  apart : ∀ k ∈ Members.keys l.extensions, k ∉ fieldNames
  fields : ∀ k ∈ fieldNames, Written (l.value? k) (Members.get? ms k)
  extensions : ∀ k, k ∉ fieldNames → Members.get? ms k = Members.get? l.extensions k

namespace Label

variable {l m : Label} {ms : Members}

theorem WrittenAs.ofMembers (h : l.WrittenAs ms) :
    Label.ofMembers ms = .ok { l with extensions := ms.filter fun m => !fieldNames.contains m.1 } :=
  (ofMembers_eq_ok_iff h.distinct).mpr (reads_of_written h.fields)

theorem WrittenAs.get?_extensions (h : l.WrittenAs ms) (k : String) :
    Members.get? l.extensions k = if k ∈ fieldNames then none else Members.get? ms k := by
  split
  · rename_i hk
    exact get?_extensions_of_mem h.apart hk
  · rename_i hk
    exact (h.extensions k hk).symm

/-- Labels that are written as the same members agree. -/
theorem WrittenAs.agrees (hl : l.WrittenAs ms) (hm : m.WrittenAs ms) : l.Agrees m := by
  have hread := Except.ok.inj (hl.ofMembers.symm.trans hm.ofMembers)
  simp only [Label.mk.injEq, and_true] at hread
  obtain ⟨h1, h2, h3, h4, h5, h6, h7, h8⟩ := hread
  exact ⟨h1, h2, h3, h4, h5, h6, h7, h8, fun k => by rw [hl.get?_extensions, hm.get?_extensions]⟩

end Label

/-! ## Members kept besides the fields -/

/-- Sets fields or the signature block, and leaves the members besides them alone. -/
def Edit.OfFields : Edit → Prop
  | .extension _ _ => False
  | .labelExtension _ _ => False
  | _ => True

namespace Policy

/-- Read from a document, or made in code with a label that keeps no field twice; then fields edited. -/
inductive Filled : Policy → Prop
  | read {v : Json} {p : Policy} : Distinct v → ofJson v = .ok p → Filled p
  | new (version : String) (label : Label) : Distinct (.object label.extensions) →
      (∀ k ∈ Members.keys label.extensions, k ∉ Label.fieldNames) → Filled (new version label)
  | edit {p : Policy} (e : Edit) : e.OfFields → e.KeysOnce → Filled p → Filled (e.apply p)

theorem Filled.made {p : Policy} (h : Filled p) : Made p := by
  induction h with
  | read hv h => exact .read hv h
  | new version label hl _ => exact .new version label hl
  | edit e _ he _ ih => exact .edit e he ih

/-- What the policy keeps besides its fields is what it received, and so is what its label keeps. -/
structure KeepsReceived (p : Policy) : Prop where
  apart : ExtensionsApart p
  extensions : ∀ ms ∈ p.received, ∀ k, k ∉ fieldNames → Members.get? p.extensions k = Members.get? ms k
  label : ∀ ms ∈ p.received, ∃ lms, Members.get? ms "securityLabel" = some (.object lms) ∧
    ∀ k, k ∉ Label.fieldNames → Members.get? p.label.extensions k = Members.get? lms k

variable {p q : Policy}

theorem keys_filter_apart {ms : Members} {names : List String} :
    ∀ k ∈ Members.keys (ms.filter fun m => !names.contains m.1), k ∉ names := by
  intro k hk
  obtain ⟨m, hm, rfl⟩ := List.mem_map.mp hk
  simpa using (List.mem_filter.mp hm).2

theorem get?_filter_apart {names : List String} (ms : Members) {k : String} (hk : k ∉ names) :
    Members.get? (ms.filter fun m => !names.contains m.1) k = Members.get? ms k := by
  rw [Members.get?_filter fun k => !names.contains k]
  simp [hk]

theorem Reads.keepsReceived {ms : Members} (hd : Distinct (.object ms)) (h : Reads ms p) : KeepsReceived p := by
  obtain ⟨v, hv, hl⟩ := h.label
  have hdv : Distinct v := distinct_get?_of_object hd hv
  cases v with
  | object lms =>
    have hreads := (Label.ofMembers_eq_ok_iff (distinct_object.mp hdv).1).mp hl
    refine ⟨⟨?_, ?_⟩, ?_, ?_⟩
    · rw [h.extensions]
      exact keys_filter_apart
    · rw [hreads.extensions]
      exact keys_filter_apart
    · rw [h.received, h.extensions]
      rintro _ ⟨⟩ k hk
      exact get?_filter_apart ms hk
    · rw [h.received, hreads.extensions]
      rintro _ ⟨⟩
      exact ⟨lms, hv, fun k hk => get?_filter_apart lms hk⟩
  | _ => cases hl

theorem KeepsReceived.apply (h : KeepsReceived p) {e : Edit} (he : e.OfFields) : KeepsReceived (e.apply p) := by
  cases e with
  | extension key value => exact he.elim
  | labelExtension key value => exact he.elim
  | signature block => cases block <;> exact { h with }
  | _ => exact { h with }

/-- So it is as long as fields are edited only. -/
theorem Filled.keepsReceived (h : Filled p) : KeepsReceived p := by
  induction h with
  | @read v p hv h =>
    cases v with
    | object ms => exact ((ofMembers_eq_ok_iff (distinct_object.mp hv).1).mp h).keepsReceived hv
    | _ => cases h
  | new version label _ hapart =>
    exact ⟨⟨fun _ h => (nomatch h), hapart⟩, fun _ h => (nomatch h), fun _ h => nomatch h⟩
  | edit e he _ _ ih => exact ih.apply he

/-! ## Documents -/

theorem KeepsReceived.get?_members (hp : KeysOnce p) (h : KeepsReceived p) {k : String} (hk : k ∉ fieldNames) :
    Members.get? p.members k = Members.get? p.extensions k := by
  rw [hp.get?_members, hp.get?_view_of_not_mem hk]
  cases hr : p.received with
  | none => rfl
  | some received =>
    simp only [h.extensions received hr k hk]
    exact laid_self (hp.received received hr) k

/-- The label's member holds the members the label is written as. -/
theorem KeepsReceived.written_label (hp : KeysOnce p) (h : KeepsReceived p) :
    ∃ lms, Members.get? p.members "securityLabel" = some (.object lms) ∧ p.label.WrittenAs lms := by
  have hextensions := (distinct_object.mp hp.labelExtensions).1
  have hview : Members.get? p.view "securityLabel" = some (.object p.label.view) :=
    hp.get?_view_of_mem h.apart (by decide)
  have hfield : ∀ k ∈ Label.fieldNames, Members.get? p.label.view k = p.label.value? k := by
    intro k hk
    rw [Label.get?_view hextensions, Label.get?_extensions_of_mem h.apart.2 hk, Option.none_or]
  have hother : ∀ k, k ∉ Label.fieldNames → Members.get? p.label.view k = Members.get? p.label.extensions k :=
    fun k hk => hp.get?_label_view_of_not_mem hk
  rw [hp.get?_members, hview]
  cases hr : p.received with
  | none =>
    exact ⟨p.label.view, rfl, Label.distinct_view _, h.apart.2, fun k hk => by rw [hfield k hk]; exact .plain, hother⟩
  | some received =>
    obtain ⟨lms, hlms, hkept⟩ := h.label received hr
    have hdistinct : Distinct (.object lms) := distinct_get?_of_object (hp.received received hr) hlms
    have hlookup := fun k => get?_overlay (distinct_object.mp hdistinct).1 (Label.distinct_view p.label) k
    refine ⟨overlay lms p.label.view, ?_, ?_, h.apart.2, fun k hk => ?_, fun k hk => ?_⟩
    · simp only [hlms, laid, kept, overlayValue_object]
    · exact distinct_overlay (distinct_object.mp hdistinct).1 (Label.distinct_view p.label)
    · rw [hlookup, hfield k hk]
      exact .onto _ fun x hx => distinct_get?_of_object hdistinct hx
    · rw [hlookup, hother k hk, hkept k hk]
      exact laid_self hdistinct k

/-! ## What the signed bytes tell -/

theorem Filled.agrees (hp : Filled p) (hq : Filled q) (h : p.signedBytes = q.signedBytes) : p.Agrees q := by
  have hp' := hp.made.keysOnce
  have hq' := hq.made.keysOnce
  have hpk := hp.keepsReceived
  have hqk := hq.keepsReceived
  have hmember := (hp'.signedBytes_eq_iff hq').mp h
  have hfield : ∀ {k}, k ∈ fieldNames → Written (q.value? k) (Members.get? q.members k) := hq'.written_members hqk.apart
  constructor
  · have hversion := written_string (hp'.written_members hpk.apart (k := "policyVersion") (by decide))
    rw [hmember _ (by decide), written_string (hfield (k := "policyVersion") (by decide))] at hversion
    simpa using hversion.symm
  · obtain ⟨lms, hlms, hlabel⟩ := hpk.written_label hp'
    obtain ⟨lms', hlms', hlabel'⟩ := hqk.written_label hq'
    rw [hmember _ (by decide), hlms'] at hlms
    cases hlms
    exact hlabel.agrees hlabel'
  · have hassertions := written_array (hp'.written_members hpk.apart (k := "policyAssertions") (by decide))
    rw [hmember _ (by decide)] at hassertions
    exact Shape.OrAbsent.unique hassertions (written_array (hfield (k := "policyAssertions") (by decide)))
  · intro k
    by_cases hk : k ∈ fieldNames
    · rw [Members.get?_eq_none_iff.mpr fun hmem => hpk.apart.1 k hmem hk,
        Members.get?_eq_none_iff.mpr fun hmem => hqk.apart.1 k hmem hk]
    · have hne : k ≠ signatureField := fun e => hk (e ▸ by decide)
      rw [← hpk.get?_members hp' hk, ← hqk.get?_members hq' hk, hmember k hne]

/-- Policies with the same signed bytes agree in their fields and in the members kept besides, whichever documents
they were read from. One that does not agree with an accepted policy is accepted with the same block under the
same secret only if their signed bytes are two messages with one tag. -/
theorem signedBytes_tell_fields (hp : Filled p) (hq : Filled q) :
    (p.signedBytes = q.signedBytes → p.Agrees q) ∧
      ∀ secret, (Service.verifyWithSecret p secret).valid = true → q.signature = p.signature → ¬ p.Agrees q →
        (Service.verifyWithSecret q secret).valid = true → ∃ h, p.signedBytes ≠ q.signedBytes ∧
          Digest.hmac h secret.bytes p.signedBytes = Digest.hmac h secret.bytes q.signedBytes := by
  refine ⟨hp.agrees hq, fun secret haccepted hsignature hdiffer hforged => ?_⟩
  obtain ⟨h, htag⟩ := tag_eq_of_verifyWithSecret hsignature haccepted hforged
  exact ⟨h, fun hbytes => hdiffer (hp.agrees hq hbytes), htag⟩

/-- The policy of `unorderedDocument`, read from a document with the members the other way round. -/
def reversedPolicy : Policy := { unorderedPolicy with received := some unorderedDocument.reverse }

theorem filled_unorderedPolicy : Filled unorderedPolicy := .read distinct_unorderedDocument rfl

theorem filled_reversedPolicy : Filled reversedPolicy := by
  obtain ⟨hkeys, hvalues⟩ := distinct_object.mp distinct_unorderedDocument
  have hd : Distinct (.object unorderedDocument.reverse) := by
    refine distinct_object.mpr ⟨?_, fun m hm => hvalues m (List.mem_reverse.mp hm)⟩
    rw [Members.Distinct, Members.keys, List.map_reverse]
    exact (List.reverse_perm _).nodup_iff.mpr hkeys
  exact .read hd rfl

/-- The order of the members is not signed. -/
theorem signedBytes_reversedPolicy : unorderedPolicy.signedBytes = reversedPolicy.signedBytes := by
  have hkeys : Members.Distinct unorderedDocument := (distinct_object.mp distinct_unorderedDocument).1
  have hperm : unorderedDocument.Perm unorderedDocument.reverse := (List.reverse_perm _).symm
  refine (filled_unorderedPolicy.made.keysOnce.signedBytes_eq_iff filled_reversedPolicy.made.keysOnce).mpr fun k _ => ?_
  exact (Members.perm_iff_get? hkeys ((hperm.map Prod.fst).nodup_iff.mp hkeys)).mp hperm k

/-- The same policy with the tag of its signed bytes. -/
def taggedUnordered : Policy :=
  unorderedPolicy.withSignature ⟨"sha384", Base64.encode (unorderedPolicy.tag ⟨[7]⟩ .sha384), "node", "2025-01-01T00:00:00Z"⟩

/-- The tag is kept, the classification is not. -/
def downgradedPolicy : Policy := (Edit.classification "UNCLASSIFIED").apply taggedUnordered

theorem downgradedPolicy_needs_collision :
    (unorderedPolicy.signedBytes = reversedPolicy.signedBytes ∧ unorderedPolicy.Agrees reversedPolicy) ∧
      ((Service.verifyWithSecret downgradedPolicy ⟨[7]⟩).valid = true →
        ∃ h, taggedUnordered.signedBytes ≠ downgradedPolicy.signedBytes ∧
          Digest.hmac h [7] taggedUnordered.signedBytes = Digest.hmac h [7] downgradedPolicy.signedBytes) := by
  have hbytes := signedBytes_reversedPolicy
  have htagged : Filled taggedUnordered := .edit (.signature (some _)) trivial trivial filled_unorderedPolicy
  have hdowngraded : Filled downgradedPolicy := .edit (.classification _) trivial trivial htagged
  have htag : taggedUnordered.tag ⟨[7]⟩ .sha384 = unorderedPolicy.tag ⟨[7]⟩ .sha384 := by
    rw [tag, tag, taggedUnordered, signedBytes_withSignature]
  have haccepted : Service.verifyWithSecret taggedUnordered ⟨[7]⟩ = .verified .hmac :=
    verifyWithSecret_tag rfl rfl rfl (congrArg Base64.encode htag.symm)
  refine ⟨⟨hbytes, (signedBytes_tell_fields filled_unorderedPolicy filled_reversedPolicy).1 hbytes⟩, fun hforged => ?_⟩
  refine (signedBytes_tell_fields htagged hdowngraded).2 ⟨[7]⟩ (by rw [haccepted]; rfl) rfl (fun hagrees => ?_) hforged
  exact absurd hagrees.label.classification (by decide)

end Policy

end PolicySeal
