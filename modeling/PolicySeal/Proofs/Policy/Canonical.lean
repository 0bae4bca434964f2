import PolicySeal.Policy.Canonical
import PolicySeal.Proofs.Json.RoundTrip
/-
  PolicySeal.Proofs.Policy.Canonical — what the signed bytes of a document tell.

  The signed members are the members without the signature block, in the order of their
  keys. Sorted, a map has one list of members only (`members_eq_iff`), the compact text of
  a value tells the value, and UTF-8 tells the text. So the signed bytes of two documents
  are the same exactly when the documents have the same members apart from the signature
  block (`ofDocument_eq_iff`): the order of the members at the top level is not signed,
  everything further down is, orders included.
-/

namespace PolicySeal

open Json

theorem Text.utf8_injective {s t : String} (h : Text.utf8 s = Text.utf8 t) : s = t := by
  have hs : ∀ u : String, (Text.utf8 u).toByteArray = u.toByteArray := by
    intro u
    rw [Text.utf8, ← List.utf8Encode, String.utf8Encode_toList]
  rw [← String.toByteArray_inj, ← hs s, ← hs t, h]

namespace Canonical

/-! ## Sorted members -/

theorem members_perm (ms : Members) : (members ms).Perm (Members.erase ms signatureField) := List.mergeSort_perm _ _

theorem members_sorted (ms : Members) : (members ms).Pairwise fun a b => keyLE a b = true := by
  refine List.pairwise_mergeSort (fun a b c hab hbc => ?_) (fun a b => ?_) _
  · simp only [keyLE, decide_eq_true_eq] at *
    exact String.le_trans hab hbc
  · simp only [keyLE, Bool.or_eq_true, decide_eq_true_eq]
    exact String.le_total a.1 b.1

/-- In order of keys that stand once there is one list of members for a map. -/
theorem members_eq_of_perm {a b : Members} (ha : Members.Distinct a)
    (h : (Members.erase a signatureField).Perm (Members.erase b signatureField)) : members a = members b := by
  have hperm : (members a).Perm (members b) := (members_perm a).trans (h.trans (members_perm b).symm)
  have hmembers : ∀ m, m ∈ members a → m ∈ Members.erase a signatureField := fun m => (members_perm a).mem_iff.mp
  refine List.Perm.eq_of_pairwise (fun x y hx hy hxy hyx => ?_) (members_sorted a) (members_sorted b) hperm
  have hkey : x.1 = y.1 := by
    simp only [keyLE, decide_eq_true_eq] at hxy hyx
    exact String.le_antisymm hxy hyx
  have hdistinct := ha.erase signatureField
  have hx' := hdistinct.get?_of_mem (hmembers x hx)
  have hy' := hdistinct.get?_of_mem (hmembers y (hperm.mem_iff.mpr hy))
  rw [← hkey, hx'] at hy'
  exact Prod.ext hkey (Option.some.inj hy')

/-- Members in the order of their keys, the block left out, are the signed ones. -/
theorem members_eq_of_sorted {a b : Members} (ha : Members.Distinct a) (h : (Members.erase a signatureField).Perm b)
    (hb : b.Pairwise fun x y => keyLE x y = true) : members a = b := by
  have hsigned : Members.erase b signatureField = b := by
    refine List.filter_eq_self.mpr fun m hm => ?_
    exact (List.mem_filter.mp (h.mem_iff.mpr hm)).2
  rw [members_eq_of_perm ha (hsigned.symm ▸ h), members, ← Members.erase, hsigned, List.mergeSort_of_pairwise hb]

/-- The signed members are equal when the documents agree on every key but the signature's. -/
theorem members_eq_iff {a b : Members} (ha : Members.Distinct a) (hb : Members.Distinct b) :
    members a = members b ↔
      ∀ k, Members.get? (Members.erase a signatureField) k = Members.get? (Members.erase b signatureField) k := by
  rw [← Members.perm_iff_get? (ha.erase _) (hb.erase _)]
  constructor
  · intro h
    exact (members_perm a).symm.trans (h ▸ members_perm b)
  · exact members_eq_of_perm ha

/-! ## Signed texts -/

theorem text_eq_iff {a b : Members} : text a = text b ↔ members a = members b := by
  constructor
  · intro h
    have := compact_injective h
    simpa using this
  · intro h
    rw [text, text, h]

/-- The signed bytes of two objects are the same exactly when the objects, without their signature
members, have the same members, in whatever order. -/
theorem ofDocument_eq_iff {a b : Members} (ha : Members.Distinct a) (hb : Members.Distinct b) :
    (ofDocument (.object a)).map Text.utf8 = (ofDocument (.object b)).map Text.utf8 ↔
      ∀ k, Members.get? (Members.erase a signatureField) k = Members.get? (Members.erase b signatureField) k := by
  rw [← members_eq_iff ha hb, ← text_eq_iff]
  constructor
  · intro h
    exact Text.utf8_injective (Except.ok.inj h)
  · intro h
    simp only [ofDocument, h]

/-- The order of the members and the signature block are not signed; the order inside a member is. -/
theorem signed_apart_from_order_and_signature :
    let d := [("b", Json.object [("x", .null), ("y", .null)]), (signatureField, .bool true), ("a", .null)]
    let reordered := [("a", Json.null), ("b", .object [("x", .null), ("y", .null)])]
    let tampered := [("a", Json.null), ("b", .object [("y", .null), ("x", .null)])]
    (ofDocument (.object d)).map Text.utf8 = (ofDocument (.object reordered)).map Text.utf8 ∧
      (ofDocument (.object d)).map Text.utf8 ≠ (ofDocument (.object tampered)).map Text.utf8 := by
  refine ⟨(ofDocument_eq_iff (by decide) (by decide)).mpr fun k => ?_, fun h => ?_⟩
  · have hd : Members.erase [("b", Json.object [("x", .null), ("y", .null)]), (signatureField, .bool true), ("a", .null)]
        signatureField = [("b", .object [("x", .null), ("y", .null)]), ("a", .null)] := rfl
    have hreordered : Members.erase [("a", Json.null), ("b", .object [("x", .null), ("y", .null)])] signatureField
        = [("a", .null), ("b", .object [("x", .null), ("y", .null)])] := rfl
    rw [hd, hreordered]
    simp only [Members.get?_cons, Members.get?_nil]
    by_cases ha : "a" = k
    · simp [← ha]
    · simp [ha]
  · have hb := (ofDocument_eq_iff (by decide) (by decide)).mp h "b"
    simp [Members.erase, Members.get?_cons, signatureField] at hb

end Canonical

end PolicySeal
