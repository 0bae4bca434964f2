import PolicySeal.Policy.Canonical
import PolicySeal.Proofs.Json.Members
import PolicySeal.Proofs.Policy.Overlay
/-
  PolicySeal.Proofs.Policy.Signed — the signature block plays no part in what is signed.

  The canonical form leaves the member of the block out. Each step by which a policy becomes
  a document (the fields in order, the extensions put over them, the whole laid over what was
  received) gives members that agree apart from the block when it is given such (`erase_put`,
  `erase_overlay`). So policies that differ in their block only have the same signed bytes
  (`signedBytes_eq_of_unsigned_eq`), however they were made and whatever was received.
-/

namespace PolicySeal

open Json

/-! ## Members apart from one key -/

namespace Json.Members

theorem erase_append (as bs : Members) (j : String) : erase (as ++ bs) j = erase as j ++ erase bs j :=
  List.filter_append as bs

theorem erase_cons (m : String × Json) (ms : Members) (j : String) :
    erase (m :: ms) j = if m.1 = j then erase ms j else m :: erase ms j := by
  rw [erase, List.filter_cons]
  by_cases hm : m.1 = j <;> simp [hm, erase]

theorem get?_erase {ms : Members} {j k : String} (hk : k ≠ j) : get? (erase ms j) k = get? ms k := by
  rw [erase, get?_filter (· != j), if_pos (by simpa using hk)]

theorem erase_put (ms : Members) (k j : String) (v : Json) :
    erase (put ms k v) j = if k = j then erase ms j else put (erase ms j) k v := by
  induction ms with
  | nil =>
    rw [put, erase_cons]
    rfl
  | cons m ms ih =>
    by_cases hm : m.1 = k
    · subst hm
      by_cases hj : m.1 = j <;> simp [put, erase_cons, hj]
    · by_cases hk : k = j
      · subst hk
        simpa [put, erase_cons, hm] using ih
      · by_cases hj : m.1 = j
        · subst hj
          simpa [put, erase_cons, hm, hk] using ih
        · simpa [put, erase_cons, hm, hk, hj] using ih

theorem erase_foldl_put (ms added : Members) (j : String) :
    erase (added.foldl (fun acc m => put acc m.1 m.2) ms) j
      = (erase added j).foldl (fun acc m => put acc m.1 m.2) (erase ms j) := by
  induction added generalizing ms with
  | nil => rfl
  | cons m added ih =>
    rw [List.foldl_cons, ih, erase_put, erase_cons]
    split
    · rfl
    · rw [List.foldl_cons]

end Json.Members

theorem erase_overlayKept {as bs : Members} {j : String} (h : Members.erase as j = Members.erase bs j) (received : Members) :
    Members.erase (overlayKept received as) j = Members.erase (overlayKept received bs) j := by
  induction received with
  | nil => rfl
  | cons m received ih =>
    rw [overlayKept_cons, overlayKept_cons, Members.erase_append, Members.erase_append, ih]
    congr 1
    by_cases hm : m.1 = j
    · have hgone : ∀ w : Option Json, Members.erase (w.map fun w => (m.1, w)).toList j = [] := by
        intro w
        cases w <;> simp [Members.erase, hm]
      rw [hgone, hgone]
    · have hlookup : Members.get? (Members.erase as j) m.1 = Members.get? as m.1 := Members.get?_erase hm
      rw [← hlookup, h, Members.get?_erase hm]

theorem erase_overlay {as bs : Members} {j : String} (h : Members.erase as j = Members.erase bs j) (received : Members) :
    Members.erase (overlay received as) j = Members.erase (overlay received bs) j := by
  have happended : ∀ ms, Members.erase (appended received ms) j = appended received (Members.erase ms j) := by
    intro ms
    rw [Members.erase, appended, appended, Members.erase, List.filter_filter, List.filter_filter]
    simp only [Bool.and_comm]
  rw [overlay, overlay, Members.erase_append, Members.erase_append, erase_overlayKept h, happended, happended, h]

/-! ## Policies apart from their blocks -/

namespace Policy

variable {p q : Policy}

theorem erase_known (p : Policy) :
    Members.erase p.known signatureField = Members.erase p.withoutSignature.known signatureField := by
  rw [known, known, Members.erase_append, Members.erase_append]
  cases p.signature <;> rfl

/-- Fields and other members that agree apart from a key are written as documents that do. -/
theorem erase_members_of {j : String} (hknown : Members.erase p.known j = Members.erase q.known j)
    (hextensions : Members.erase p.extensions j = Members.erase q.extensions j) (hreceived : p.received = q.received) :
    Members.erase p.members j = Members.erase q.members j := by
  have hview : Members.erase p.view j = Members.erase q.view j := by
    rw [view, view, Members.erase_foldl_put, Members.erase_foldl_put, hknown, hextensions]
  rw [members, members, hreceived]
  cases q.received with
  | none => exact hview
  | some received => exact erase_overlay hview received

theorem erase_members (p : Policy) :
    Members.erase p.members signatureField = Members.erase p.withoutSignature.members signatureField :=
  erase_members_of p.erase_known rfl rfl

/-- The block of a policy is not signed, whatever stands where it is written. -/
theorem signedBytes_withoutSignature (p : Policy) : p.withoutSignature.signedBytes = p.signedBytes := by
  have hmembers : Canonical.members p.withoutSignature.members = Canonical.members p.members :=
    congrArg (List.mergeSort · Canonical.keyLE) p.erase_members.symm
  rw [signedBytes, signedBytes, canonical, canonical, Canonical.text, Canonical.text, hmembers]

theorem signedBytes_eq_of_unsigned_eq (h : p.withoutSignature = q.withoutSignature) : p.signedBytes = q.signedBytes := by
  rw [← signedBytes_withoutSignature p, h, signedBytes_withoutSignature]

/-- A block that is attached changes nothing that is signed. -/
theorem signedBytes_withSignature (p : Policy) (b : SignatureBlock) : (p.withSignature b).signedBytes = p.signedBytes :=
  signedBytes_eq_of_unsigned_eq rfl

end Policy

end PolicySeal
