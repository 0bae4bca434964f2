import PolicySeal.Proofs.Binding.Alike
import PolicySeal.Proofs.Json.Same
/-
  PolicySeal.Proofs.Policy.Same — policies that are equal, and what is signed of them.

  Policies are the same when their documents are, objects taken as maps. The canonical bytes
  tell more: below the top level the members are signed in the order of the document, and a
  zero with its sign. So two policies that are the same may have different signed bytes
  (`same_signed_apart`), and have equal ones exactly when their members outside the signature
  block are laid out alike (`signedBytes_of_same`). Then the digest is one and the same, and
  any block that is attached to both gets one and the same verdict.
-/

namespace PolicySeal.Policy

open Json

variable {p q : Policy}

/-- The members other than the signature block are laid out alike, where both policies have them: in order below the
top level, and zeros with the same signs. -/
def SameLayout (p q : Policy) : Prop :=
  ∀ k, k ≠ signatureField → ∀ v ∈ Members.get? p.members k, ∀ w ∈ Members.get? q.members k, v.SameLayout w

/-- Policies are the same when a lookup of any key in their documents finds the same. -/
theorem KeysOnce.same_iff (hp : KeysOnce p) (hq : KeysOnce q) :
    p.same q = true ↔ ∀ k, Option.Rel Same (Members.get? p.members k) (Members.get? q.members k) :=
  same_object_iff (distinct_object.mp hp.distinct_document).1 (distinct_object.mp hq.distinct_document).1

theorem KeysOnce.signedBytes_eq_iff_sameLayout (hp : KeysOnce p) (hq : KeysOnce q) (hsame : p.same q = true) :
    p.signedBytes = q.signedBytes ↔ p.SameLayout q := by
  have hlookups := (hp.same_iff hq).mp hsame
  rw [hp.signedBytes_eq_iff hq, SameLayout]
  refine forall₂_congr fun k _ => ?_
  have hdistinct : ∀ w, Members.get? q.members k = some w → Distinct w :=
    fun w hw => distinct_get?_of_object hq.distinct_document hw
  have hk := hlookups k
  generalize Members.get? p.members k = a at hk
  generalize Members.get? q.members k = b at hk hdistinct
  cases hk with
  | none => simp
  | some hvw => simp [← same_and_sameLayout_iff (hdistinct _ rfl), hvw]

theorem alike_withSignature (hbytes : p.signedBytes = q.signedBytes) (block : SignatureBlock) :
    (p.withSignature block).Alike (q.withSignature block) where
  bytes := by rw [signedBytes_withSignature, signedBytes_withSignature, hbytes]
  blocks := .some ⟨rfl, Text.trim_eq_iff.mp rfl⟩

/-- The documents of policies that are the same have the same keys at the top level, with values that are the same.
Their signed bytes are equal exactly when these values are laid out alike, the signature block apart. The digests are
then equal, and every signature block gets the same verdict on the one as on the other, in whatever way it is
verified. -/
theorem signedBytes_of_same (hp : Made p) (hq : Made q) (hsame : p.same q = true) :
    (∀ k, Option.Rel Same (Members.get? p.members k) (Members.get? q.members k)) ∧
      (p.signedBytes = q.signedBytes ↔ p.SameLayout q) ∧
      (p.SameLayout q → p.digest = q.digest ∧ ∀ block (s : Service) (way : Way) (store : Trust.Store),
        (s.verifyBy (p.withSignature block) way).run store = (s.verifyBy (q.withSignature block) way).run store) := by
  have hlayout := hp.keysOnce.signedBytes_eq_iff_sameLayout hq.keysOnce hsame
  refine ⟨(hp.keysOnce.same_iff hq.keysOnce).mp hsame, hlayout, fun halike => ?_⟩
  have hbytes := hlayout.mpr halike
  refine ⟨by rw [digest, digest, hbytes], fun block s way store => ?_⟩
  rw [Service.verifyBy_congr (alike_withSignature hbytes block)]

/-! ## Members the other way round -/

def orderedLabel : Members := [("classification", .string "SECRET"), ("originatingCountry", .string "NLD")]

/-- A document with a label and a zero. -/
def zeroDocument (label : Members) (negative : Bool) : Members :=
  [("policyVersion", .string "1.0"), ("securityLabel", .object label),
    ("weight", .number (.float (Decimal.Double.zero negative)))]

/-- What is read from it, where the label has the members of `orderedLabel`. -/
def zeroPolicy (label : Members) (negative : Bool) : Policy where
  version := "1.0"
  label :=
    { classification := "SECRET", releasabilityTo := [], coi := [], coiOperator := none, caveats := []
      originatingCountry := "NLD", creationDate := none, displayMarking := none, extensions := [] }
  assertions := []
  signature := none
  extensions := [("weight", .number (.float (Decimal.Double.zero negative)))]
  received := some (zeroDocument label negative)

theorem made_zeroPolicy {label : Members} (negative : Bool) (hlabel : Distinct (.object label))
    (hread : ofJson (.object (zeroDocument label negative)) = .ok (zeroPolicy label negative)) :
    Made (zeroPolicy label negative) := by
  refine .read (distinct_object.mpr ⟨?_, by simp [zeroDocument, hlabel]⟩) hread
  simp [Members.Distinct, Members.keys, zeroDocument]

theorem distinct_orderedLabel : Distinct (.object orderedLabel) := by
  simp [orderedLabel, distinct_object, Members.Distinct, Members.keys]

/-- The policy read from the document with its members the other way round at the top. -/
def reversedZeroPolicy : Policy :=
  { zeroPolicy orderedLabel false with received := some (zeroDocument orderedLabel false).reverse }

/-- The order at the top is looked over and not signed. -/
theorem reversedZeroPolicy_signed_alike :
    (zeroPolicy orderedLabel false).same reversedZeroPolicy = true ∧
      (zeroPolicy orderedLabel false).SameLayout reversedZeroPolicy ∧
      (zeroPolicy orderedLabel false).signedBytes = reversedZeroPolicy.signedBytes := by
  have hmade : Made (zeroPolicy orderedLabel false) := made_zeroPolicy false distinct_orderedLabel rfl
  have hmadeReversed : Made reversedZeroPolicy := by
    refine .read (v := .object (zeroDocument orderedLabel false).reverse) (distinct_object.mpr ⟨by decide, ?_⟩) rfl
    simp [zeroDocument, distinct_orderedLabel]
  have hsame : (zeroPolicy orderedLabel false).same reversedZeroPolicy = true := by decide +kernel
  have hlayout : (zeroPolicy orderedLabel false).SameLayout reversedZeroPolicy := by
    intro k _ v hv w hw
    have hperm : (zeroDocument orderedLabel false).Perm (zeroDocument orderedLabel false).reverse :=
      (List.reverse_perm _).symm
    have hlookup := (Members.perm_iff_get? (by decide) (by decide)).mp hperm k
    obtain rfl : v = w := Option.some.inj (hv.symm.trans (hlookup.trans hw))
    exact sameLayout_refl v
  exact ⟨hsame, hlayout, (signedBytes_of_same hmade hmadeReversed hsame).2.1.mpr hlayout⟩

theorem distinct_reversedLabel : Distinct (.object orderedLabel.reverse) := by
  simp [orderedLabel, distinct_object, Members.Distinct, Members.keys]

/-- The members of the label turned round, or the sign of the zero: equal policies, and other bytes are signed. -/
theorem same_signed_apart :
    (ofJson (.object (zeroDocument orderedLabel false)) = .ok (zeroPolicy orderedLabel false) ∧
      ofJson (.object (zeroDocument orderedLabel.reverse false)) = .ok (zeroPolicy orderedLabel.reverse false) ∧
      ofJson (.object (zeroDocument orderedLabel true)) = .ok (zeroPolicy orderedLabel true)) ∧
    ((zeroPolicy orderedLabel false).same (zeroPolicy orderedLabel.reverse false) = true ∧
      (zeroPolicy orderedLabel false).signedBytes ≠ (zeroPolicy orderedLabel.reverse false).signedBytes) ∧
    ((zeroPolicy orderedLabel false).same (zeroPolicy orderedLabel true) = true ∧
      (zeroPolicy orderedLabel false).signedBytes ≠ (zeroPolicy orderedLabel true).signedBytes) := by
  have hordered := (made_zeroPolicy false distinct_orderedLabel rfl).keysOnce
  have hreversed := (made_zeroPolicy false distinct_reversedLabel rfl).keysOnce
  have hnegative := (made_zeroPolicy true distinct_orderedLabel rfl).keysOnce
  have hturned : (zeroPolicy orderedLabel false).same (zeroPolicy orderedLabel.reverse false) = true := by decide +kernel
  have hsign : (zeroPolicy orderedLabel false).same (zeroPolicy orderedLabel true) = true := by decide +kernel
  refine ⟨⟨rfl, rfl, rfl⟩, ⟨hturned, fun hbytes => ?_⟩, ⟨hsign, fun hbytes => ?_⟩⟩
  · have hlayout := (hordered.signedBytes_eq_iff_sameLayout hreversed hturned).mp hbytes
    exact absurd (hlayout "securityLabel" (by decide) _ rfl _ rfl) (by decide)
  · have hlayout := (hordered.signedBytes_eq_iff_sameLayout hnegative hsign).mp hbytes
    exact absurd (hlayout "weight" (by decide) _ rfl _ rfl) (by decide)

end PolicySeal.Policy
