import PolicySeal.Json.Shape
import PolicySeal.Proofs.Policy.Canonical
/-
  PolicySeal.Proofs.Policy.FixedPoint — canonical texts, read and canonicalized again.

  The canonical text of a document that was read can always be read, and holds the signed
  members in their order with their numbers as the texts of these read (`text_reread`). So it
  is its own canonical text exactly when every double in it reads back; whole numbers always
  do. The reader of doubles is not exact, and there are doubles that do not
  (`tiny_drifts`).
-/

namespace PolicySeal

open Json Decimal

namespace Json

theorem read_eq_ok_iff {text : String} {v : Json} : read text = .ok v ↔ ofText? text = some v := by
  rw [read]
  cases ofText? text <;> simp

/-- Of the numbers only doubles may fail to read back. -/
theorem numbersReadBack_iff_floats {v : Json} :
    NumbersReadBack v ↔ ∀ d, Inside (.number (.float d)) v → (Number.float d).ReadsBack := by
  constructor
  · intro h d hd
    exact h _ hd _ rfl
  · intro h u hu n hn
    subst hn
    cases n with
    | whole i range => exact Number.readsBack_whole i range
    | float d => exact h d hu

end Json

namespace Canonical

variable {ms : Members}

/-- The signed members keep their order when their numbers are read again, and all of them are signed. -/
theorem members_renumberMembers (hms : Members.Distinct ms) :
    members (renumberMembers (members ms)) = renumberMembers (members ms) := by
  have hkeys : Members.keys (renumberMembers (members ms)) = Members.keys (members ms) := keys_renumberMembers _
  have hsigned : Members.erase (renumberMembers (members ms)) signatureField = renumberMembers (members ms) := by
    refine List.filter_eq_self.mpr fun m hm => ?_
    have hmem : m.1 ∈ Members.keys (members ms) := hkeys ▸ Members.mem_keys_of_mem hm
    obtain ⟨n, hn, hkey⟩ := List.mem_map.mp hmem
    rw [← hkey]
    exact (List.mem_filter.mp ((members_perm ms).mem_iff.mp hn)).2
  refine members_eq_of_sorted ?_ (List.Perm.of_eq hsigned) ?_
  · rw [Members.Distinct, hkeys]
    exact ((members_perm ms).map Prod.fst).nodup_iff.mpr (hms.erase signatureField)
  · rw [renumberMembers_eq, List.pairwise_map]
    exact members_sorted ms

/-- Reading the canonical text of a document that was read succeeds, and gives its signed members with their numbers as
the texts of these read. Canonicalized again that is the same text exactly when the text of every double in the signed
members reads as that double. -/
theorem text_reread {t : String} (h : read t = .ok (.object ms)) :
    read (text ms) = .ok (renumber (.object (members ms))) ∧
      (ofDocument (renumber (.object (members ms))) = .ok (text ms) ↔
        ∀ d, Inside (.number (.float d)) (.object (members ms)) → (Number.float d).ReadsBack) := by
  rw [read_eq_ok_iff] at h
  obtain ⟨hkeys, hvalues⟩ := distinct_object.mp (distinct_of_ofText? h)
  obtain ⟨hlimit, hdepths⟩ := depth_object_le.mp (depth_of_ofText? h)
  have hmem : ∀ m ∈ members ms, m ∈ ms := fun m hm => (List.mem_filter.mp ((members_perm ms).mem_iff.mp hm)).1
  have hdistinct : Distinct (.object (members ms)) := by
    refine distinct_object.mpr ⟨?_, fun m hm => hvalues m (hmem m hm)⟩
    exact ((members_perm ms).map Prod.fst).nodup_iff.mpr (hkeys.erase signatureField)
  have hdepth : depth (.object (members ms)) ≤ Draft.nestingLimit :=
    depth_object_le.mpr ⟨hlimit, fun m hm => hdepths m (hmem m hm)⟩
  refine ⟨read_eq_ok_iff.mpr (ofText?_compact hdepth hdistinct), ?_⟩
  rw [renumber, ofDocument, Except.ok.injEq, text_eq_iff, members_renumberMembers hkeys, ← numbersReadBack_iff_floats,
    ← renumber_eq_self_iff, renumber, Json.object.injEq]

/-! ## Documents of one number -/

/-- What is read is told by its compact text. -/
theorem read_of_compact {t : String} {v : Json} (h : (read t).toOption.map compact = some (compact v)) : read t = .ok v := by
  cases hr : read t with
  | error e =>
    rw [hr] at h
    cases h
  | ok w =>
    rw [hr] at h
    rw [compact_injective (Option.some.inj h)]

/-- The double `0.5`. -/
def half : Double := ⟨false, 4602678819172646912, by decide⟩

/-- A document out of order, with a fraction, the largest whole number and a place for the signature. -/
def mixedDocument : Members :=
  [("b", .number (.float half)), (signatureField, .null), ("a", .number (.whole 18446744073709551615 (by decide)))]

/-- The text of `mixedDocument`, the fraction as a producer may write it. -/
def mixedText : String := "\x7b\"b\":5e-1,\"policySignature\":null,\"a\":18446744073709551615\x7d"

theorem members_mixedDocument : members mixedDocument =
    [("a", .number (.whole 18446744073709551615 (by decide))), ("b", .number (.float half))] :=
  members_eq_of_sorted (by decide) (List.Perm.swap _ _ _) (by simp [keyLE])

theorem mixedDocument_comes_back :
    read mixedText = .ok (.object mixedDocument) ∧
      ofDocument (renumber (.object (members mixedDocument))) = .ok "\x7b\"a\":18446744073709551615,\"b\":0.5\x7d" := by
  have hread : read mixedText = .ok (.object mixedDocument) := read_of_compact (by decide +kernel)
  have htext : text mixedDocument = "\x7b\"a\":18446744073709551615,\"b\":0.5\x7d" := by
    rw [text, members_mixedDocument]
    decide +kernel
  refine ⟨hread, htext ▸ (text_reread hread).2.mpr ?_⟩
  rw [← numbersReadBack_iff_floats, members_mixedDocument]
  simp only [numbersReadBack_object, List.forall_mem_cons, numbersReadBack_number]
  exact ⟨Number.readsBack_whole _ _, by decide +kernel, List.forall_mem_nil _⟩

/-- What is read from `1e-24`, and the next double below, which is the nearest. -/
def tiny : Double := ⟨false, 4247835366853742248, by decide⟩

def tinier : Double := ⟨false, 4247835366853742247, by decide⟩

/-- The canonical text of a document, and what it becomes when it is read and canonicalized again. -/
theorem tiny_drifts :
    read "\x7b\"x\":1e-24\x7d" = .ok (.object [("x", .number (.float tiny))]) ∧
      ofDocument (.object [("x", .number (.float tiny))]) = .ok "\x7b\"x\":1.0000000000000001e-24\x7d" ∧
      read "\x7b\"x\":1.0000000000000001e-24\x7d" = .ok (.object [("x", .number (.float tinier))]) ∧
      ofDocument (.object [("x", .number (.float tinier))]) = .ok "\x7b\"x\":1e-24\x7d" := by
  have htiny : text [("x", .number (.float tiny))] = "\x7b\"x\":1.0000000000000001e-24\x7d" := by decide +kernel
  have htinier : text [("x", .number (.float tinier))] = "\x7b\"x\":1e-24\x7d" := by decide +kernel
  exact ⟨read_of_compact (by decide +kernel), by rw [ofDocument, htiny], read_of_compact (by decide +kernel),
    by rw [ofDocument, htinier]⟩

end Canonical

end PolicySeal
