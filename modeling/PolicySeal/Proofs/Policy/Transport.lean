import PolicySeal.Proofs.Binding.Signing
import PolicySeal.Proofs.Policy.Canonical
import PolicySeal.Proofs.Policy.Made
import PolicySeal.Proofs.Policy.Received
import PolicySeal.Proofs.Policy.Signed
/-
  PolicySeal.Proofs.Policy.Transport — a policy survives being written and read.

  The document of a policy is accepted and comes back from its texts, and what is read is
  written as that document again but for the signature block; so the policy that arrives
  has the signed bytes and the block of the one that was sent. A block that is attached on
  the way out changes nothing that is signed, so a policy signed with a secret is verified
  with it where it arrives (`transport`).
-/

namespace PolicySeal

open Json

namespace Policy

variable {p : Policy}

/-- One of the two texts a policy is written as. -/
def IsTextOf (p : Policy) (text : String) : Prop := text = compact p.document ∨ text = pretty p.document

/-- The texts of the policy can be read: not too deep, and with numbers that read back. -/
structure Readable (p : Policy) : Prop where
  depth : p.document.depth ≤ Draft.nestingLimit
  numbers : NumbersReadBack p.document

/-! ## Arriving -/

theorem spelled_of_isTextOf {text : String} (h : IsTextOf p text) : Token.Spelled (tokens p.document) text.toList := by
  rcases h with rfl | rfl
  · simpa [compact] using spelled_compact p.document
  · simpa [pretty] using spelled_pretty p.document

/-- What is accepted as a document is accepted as a text of it. -/
theorem ofText_of_reads (hp : KeysOnce p) (hr : Readable p) {text : String} (ht : IsTextOf p text) {q : Policy}
    (h : Reads p.members q) : ofText text = .ok q := by
  have hvalue := Draft.valueWithin_reread p.document _ hr.depth hp.distinct_document hr.numbers
  have hmembers := (distinct_object.mp hp.distinct_document).1
  refine Draft.readText_eq_ok_iff.mpr ?_
  rw [Token.ofText_of_spelled (spelled_of_isTextOf ht), Draft.ofTokens_tokens]
  refine ⟨?_, rfl⟩
  simp only [document, reread] at hvalue ⊢
  simp only [ofDraft, Draft.value?, hvalue, ofJson, (ofMembers_eq_ok_iff hmembers).mpr h]
  rfl

/-- What arrives has the signed bytes and the signature block of what was sent. -/
theorem KeysOnce.arrives (hp : KeysOnce p) (hapart : ExtensionsApart p) (hr : Readable p) {text : String}
    (ht : IsTextOf p text) : ∃ q, ofText text = .ok q ∧ q.signedBytes = p.signedBytes ∧ q.signature = p.signature := by
  obtain ⟨q, hq, hsignature⟩ := hp.reads_members hapart
  have hsame := hq.same_members hp.distinct_document
  refine ⟨q, ofText_of_reads hp hr ht hq, ?_, hsignature⟩
  rw [signedBytes, signedBytes, canonical, canonical, hsame.text_eq]

/-! ## Attaching a block -/

theorem KeysOnce.withSignature (hp : KeysOnce p) (b : SignatureBlock) : KeysOnce (p.withSignature b) := { hp with }

theorem get?_members_withSignature (hp : KeysOnce p) (b : SignatureBlock) {k : String} (hk : k ≠ signatureField) :
    Members.get? (p.withSignature b).members k = Members.get? p.members k := by
  have hvalue : (p.withSignature b).value? k = p.value? k := by
    unfold value?
    split <;> first | rfl | exact absurd rfl hk
  have hview : Members.get? (p.withSignature b).view k = Members.get? p.view k := by
    rw [get?_view (distinct_object.mp (hp.withSignature b).extensions).1, get?_view (distinct_object.mp hp.extensions).1,
      hvalue]
    rfl
  rw [(hp.withSignature b).get?_members, hp.get?_members, hview]
  rfl

/-- A written block holds strings and maybe nulls. -/
theorem written_block {b : SignatureBlock} {found : Option Json} (h : Written (some (.object b.view)) found) :
    ∃ ms, found = some (.object ms) ∧ ∀ m ∈ ms, m.2 = .null ∨ ∃ s, m.2 = .string s := by
  have hstrings : ∀ m ∈ b.view, ∃ s, m.2 = .string s := by simp [SignatureBlock.view]
  have hplain : ∀ m ∈ b.view, m.2 = .null ∨ ∃ s, m.2 = .string s := fun m hm => Or.inr (hstrings m hm)
  cases h with
  | plain => exact ⟨_, rfl, hplain⟩
  | onto v hv =>
    cases v with
    | none => exact ⟨_, rfl, hplain⟩
    | some v =>
      cases v with
      | object received =>
        have hr := (distinct_object.mp (hv _ rfl)).1
        refine ⟨overlay received b.view, congrArg some (overlayValue_object _ _), fun m hm => ?_⟩
        rcases laid_cases (mem_overlay hr (SignatureBlock.distinct_view b) hm) with hnull | hlaid | ⟨x, y, -, hy, hboth⟩
        · exact Or.inl hnull
        · exact Or.inr (hstrings _ (Members.mem_of_get? hlaid))
        · obtain ⟨s, hs⟩ := hstrings _ (Members.mem_of_get? hy)
          simp only at hs
          rw [hboth, hs, overlayValue_of_not_object (Or.inr rfl)]
          exact Or.inr ⟨s, rfl⟩
      | _ => exact ⟨_, congrArg some (overlayValue_of_not_object (Or.inl rfl)), hplain⟩

/-- With a block the texts can still be read. -/
theorem Readable.withSignature (hp : KeysOnce p) (hapart : ExtensionsApart p) (hr : Readable p) (b : SignatureBlock) :
    Readable (p.withSignature b) := by
  have hp' := hp.withSignature b
  have hms := (distinct_object.mp hp'.distinct_document).1
  obtain ⟨-, hdepth⟩ := depth_object_le.mp hr.depth
  have hnumbers := numbersReadBack_object.mp hr.numbers
  -- The members are those of the policy before, and the block.
  have hmember : ∀ m ∈ (p.withSignature b).members, m.2.depth ≤ Draft.nestingLimit - 1 ∧ NumbersReadBack m.2 := by
    intro m hm
    have hlookup := hms.get?_of_mem hm
    by_cases hk : m.1 = signatureField
    · have hwritten : Written (some (.object b.view)) (Members.get? (p.withSignature b).members signatureField) :=
        hp'.written_members hapart (k := signatureField) (by decide)
      obtain ⟨ms, hblock, hflat⟩ := written_block hwritten
      rw [← hk, hlookup] at hblock
      rw [Option.some.inj hblock]
      refine ⟨depth_object_le.mpr ⟨by decide, fun x hx => ?_⟩, numbersReadBack_object.mpr fun x hx => ?_⟩
      · rcases hflat x hx with h | ⟨s, h⟩ <;> simp [h]
      · rcases hflat x hx with h | ⟨s, h⟩ <;> simp [h]
    · rw [get?_members_withSignature hp b hk] at hlookup
      have hmem := Members.mem_of_get? hlookup
      exact ⟨hdepth _ hmem, hnumbers _ hmem⟩
  exact ⟨depth_object_le.mpr ⟨by decide, fun m hm => (hmember m hm).1⟩,
    numbersReadBack_object.mpr fun m hm => (hmember m hm).2⟩

/-! ## Sent and verified -/

theorem KeysOnce.signed_arrives (hp : KeysOnce p) (hapart : ExtensionsApart p) (hr : Readable p) {secret : Secret}
    (hsecret : secret.isEmpty = false) (h : Hash) (signerId : String) (at_ : Time.Instant) :
    ∃ signed, p.signedWithSecret secret h signerId at_ = .ok signed ∧
      ∀ text, IsTextOf signed text → ∃ q, ofText text = .ok q ∧ Service.verifyWithSecret q secret = .verified .hmac := by
  let block := p.tagBlock secret h signerId at_
  refine ⟨p.withSignature block, signedWithSecret_of_secret hsecret, fun text ht => ?_⟩
  obtain ⟨q, hq, hbytes, hsignature⟩ := (hp.withSignature block).arrives hapart (hr.withSignature hp hapart block) ht
  refine ⟨q, hq, verifyWithSecret_tag hsecret (hsignature.trans rfl) rfl ?_⟩
  rw [tag, hbytes, signedBytes_withSignature]
  rfl

/-- A policy comes back from its compact and from its pretty text with the signed bytes and the signature block it
was sent with, and so with the same verdict under every secret; signed with a secret before it is sent, it is
verified with that secret where it arrives. -/
theorem transport (hp : Made p) (hapart : ExtensionsApart p) (hr : Readable p) :
    (∀ text, IsTextOf p text → ∃ q, ofText text = .ok q ∧ q.signedBytes = p.signedBytes ∧
      q.signature = p.signature ∧ ∀ secret, Service.verifyWithSecret q secret = Service.verifyWithSecret p secret) ∧
    ∀ secret h signerId at_, secret.isEmpty = false →
      ∃ signed, p.signedWithSecret secret h signerId at_ = .ok signed ∧
        ∀ text, IsTextOf signed text →
          ∃ q, ofText text = .ok q ∧ Service.verifyWithSecret q secret = .verified .hmac := by
  refine ⟨fun text ht => ?_, fun secret h signerId at_ hsecret => ?_⟩
  · obtain ⟨q, hq, hbytes, hsignature⟩ := hp.keysOnce.arrives hapart hr ht
    exact ⟨q, hq, hbytes, hsignature, fun secret => verifyWithSecret_congr hbytes hsignature⟩
  · exact hp.keysOnce.signed_arrives hapart hr hsecret h signerId at_

/-- The policy of `unorderedDocument`. -/
def unorderedPolicy : Policy where
  version := "1.0"
  label :=
    { classification := "SECRET", releasabilityTo := [], coi := [], coiOperator := none, caveats := []
      originatingCountry := "NLD", creationDate := none, displayMarking := none
      extensions := [("level", .object [("b", .bool true), ("a", .array [])])] }
  assertions := []
  signature := none
  extensions := [("note", .null)]
  received := some unorderedDocument

/-- The same with another version, a date where there was null, a caveat and one more member. -/
def revisedPolicy : Policy :=
  [Edit.version "1.1", .creationDate (some "2025"), .caveats ["NOFORN"], .extension "count" (some (.number (.ofInt 3)))].foldl
    Edit.apply unorderedPolicy

theorem revisedPolicy_transported :
    (∃ q, ofText (pretty revisedPolicy.document) = .ok q ∧ q.signedBytes = revisedPolicy.signedBytes) ∧
      ∃ signed, revisedPolicy.signedWithSecret ⟨[7]⟩ .sha512 "node" ⟨0⟩ = .ok signed ∧
        ∃ q, ofText (compact signed.document) = .ok q ∧ Service.verifyWithSecret q ⟨[7]⟩ = .verified .hmac := by
  have hread : Made unorderedPolicy := by
    have hd : Distinct (.object unorderedDocument) := by
      simp [unorderedDocument, distinct_object, Members.Distinct, Members.keys, signatureField]
    exact .read hd rfl
  have hmade : Made revisedPolicy := hread.edits (by simp [Edit.KeysOnce])
  have hapart : ExtensionsApart revisedPolicy := by
    constructor <;> decide
  have hdocument : revisedPolicy.document = .object
      [("note", .null), (signatureField, .null),
        ("securityLabel", .object [("originatingCountry", .string "NLD"), ("caveats", .array [.string "NOFORN"]),
          ("creationDate", .string "2025"), ("level", .object [("b", .bool true), ("a", .array [])]),
          ("classification", .string "SECRET")]),
        ("policyVersion", .string "1.1"), ("count", .number (.ofInt 3))] := rfl
  have hreadable : Readable revisedPolicy := by
    constructor
    · rw [hdocument]
      decide
    · have hcount : (Number.ofInt 3).ReadsBack := Number.readsBack_whole _ _
      simp [hdocument, hcount]
  obtain ⟨harrives, hsigned⟩ := transport hmade hapart hreadable
  obtain ⟨q, hq, hbytes, -⟩ := harrives _ (Or.inr rfl)
  obtain ⟨signed, hs, hverified⟩ := hsigned ⟨[7]⟩ .sha512 "node" ⟨0⟩ rfl
  exact ⟨⟨q, hq, hbytes⟩, signed, hs, hverified _ (Or.inl rfl)⟩

end Policy

end PolicySeal
