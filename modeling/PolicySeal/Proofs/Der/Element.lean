import PolicySeal.Der.Element
import PolicySeal.Proofs.Bytes
/-
  PolicySeal.Proofs.Der.Element — an element is read from its encoding as it was written.

  That holds for tags that are known and contents that are not too long (`Element.Fits`), with
  any bytes after the encoding (`split?_encode`). So a row of such elements is read from its
  bytes (`list?_encode`), and what was put into an element is taken out of it (`inside?_wrap`).
  What is inside is shorter than what is around it, so a bound on the whole is one on each
  part (`length_le_wrap`), and none of the parts needs a bound of its own.
-/

namespace PolicySeal.Der

/-! ## Lengths -/

theorem width_le_four {n : Nat} (h : n ≤ maxLength) : Bytes.width n ≤ 4 := by
  rw [Bytes.width]
  split
  · omega
  · rename_i hne
    have hlog : n.log2 < 28 := (Nat.log2_lt hne).mpr (Nat.lt_of_le_of_lt h (by decide))
    omega

/-- A length is read back from its least writing. -/
theorem splitLength?_encodeLength {n : Nat} (h : n ≤ maxLength) (rest : Bytes) :
    splitLength? (encodeLength n ++ rest) = some (n, rest) := by
  rw [encodeLength]
  by_cases hshort : n < 128
  · have hbyte : (UInt8.ofNat n).toNat = n := by simp; omega
    have hlow : UInt8.ofNat n < 0x80 := by rw [UInt8.lt_iff_toNat_lt, hbyte]; exact hshort
    rw [if_pos hshort, List.singleton_append, splitLength?, if_pos hlow, hbyte]
  · have hwidth := width_le_four h
    have hpos : Bytes.width n ≠ 0 := by rw [Bytes.width, if_neg (by omega)]; omega
    have hlength := Bytes.length_minimal n
    have hbyte : (UInt8.ofNat (0x80 + Bytes.width n)).toNat = 0x80 + Bytes.width n := by simp; omega
    have hhigh : ¬ UInt8.ofNat (0x80 + Bytes.width n) < 0x80 := by
      rw [UInt8.lt_iff_toNat_lt, hbyte]
      exact Nat.not_lt.mpr (Nat.le_add_right _ _)
    have htake : (Bytes.minimal n ++ rest).take (Bytes.width n) = Bytes.minimal n := hlength ▸ List.take_left
    have hdrop : (Bytes.minimal n ++ rest).drop (Bytes.width n) = rest := hlength ▸ List.drop_left
    rw [if_neg hshort, List.cons_append, hlength, splitLength?, if_neg hhigh]
    simp only [hbyte, Nat.add_sub_cancel_left, htake, hdrop, Bytes.toNat_minimal, List.length_append, hlength]
    rw [if_neg (by omega)]

namespace Element

/-! ## One element -/

/-- The tag is known, and the content is not too long. -/
structure Fits (e : Element) : Prop where
  known : Tag.isKnown e.tag = true
  length : e.content.length ≤ maxLength

theorem length_lt_encode (e : Element) : e.content.length < e.encode.length := by
  rw [encode, List.length_cons, List.length_append]
  omega

theorem split?_encode {e : Element} (h : e.Fits) (rest : Bytes) : split? (e.encode ++ rest) = some (e, rest) := by
  rw [encode, List.cons_append, List.append_assoc, split?, h.known]
  simp [splitLength?_encodeLength h.length]

theorem one?_encode {e : Element} (h : e.Fits) : one? e.encode = some e := by
  have hsplit := split?_encode h []
  rw [List.append_nil] at hsplit
  rw [one?, hsplit]

/-- Only elements of known tags are read. -/
theorem isKnown_of_split? {bs rest : Bytes} {e : Element} (h : split? bs = some (e, rest)) :
    Tag.isKnown e.tag = true := by
  cases bs with
  | nil => cases h
  | cons tag bs =>
    rw [split?] at h
    split at h
    · cases h
    · rename_i hknown
      obtain ⟨length, -, h⟩ := Option.bind_eq_some_iff.mp h
      obtain ⟨-, h⟩ := Option.ite_none_right_eq_some.mp h
      cases h
      simpa using hknown

theorem isKnown_of_one? {bs : Bytes} {e : Element} (h : one? bs = some e) : Tag.isKnown e.tag = true := by
  rw [one?] at h
  split at h
  · rename_i hsplit
    cases h
    exact isKnown_of_split? hsplit
  · cases h

/-! ## Rows of elements -/

theorem listWithin_succ {bs : Bytes} (h : bs ≠ []) (fuel : Nat) :
    listWithin (fuel + 1) bs = (split? bs).bind fun p => (listWithin fuel p.2).map (p.1 :: ·) := by
  rw [listWithin]
  · cases split? bs with
    | none => rfl
    | some p => exact (Option.map_eq_bind ..).symm
  · exact h

theorem encode_append_ne_nil (e : Element) (rest : Bytes) : e.encode ++ rest ≠ [] := List.cons_ne_nil _ _

theorem listWithin_encode {es : List Element} (h : ∀ e ∈ es, e.Fits) {fuel : Nat} (hfuel : es.length ≤ fuel) :
    listWithin fuel (es.map encode).flatten = some es := by
  induction es generalizing fuel with
  | nil => cases fuel <;> rfl
  | cons e es ih =>
    obtain ⟨he, hes⟩ := List.forall_mem_cons.mp h
    cases fuel with
    | zero => cases hfuel
    | succ fuel =>
      rw [List.map_cons, List.flatten_cons, listWithin_succ (encode_append_ne_nil _ _), split?_encode he, Option.bind_some,
        ih hes (Nat.le_of_succ_le_succ hfuel)]
      rfl

theorem length_le_flatten (es : List Element) : es.length ≤ (es.map encode).flatten.length := by
  induction es with
  | nil => exact Nat.le_refl _
  | cons e es ih =>
    have := length_lt_encode e
    rw [List.map_cons, List.flatten_cons, List.length_append, List.length_cons]
    omega

theorem list?_encode {es : List Element} (h : ∀ e ∈ es, e.Fits) : list? (es.map encode).flatten = some es :=
  listWithin_encode h (length_le_flatten es)

@[simp] theorem tagged?_mk (tag : UInt8) (content : Bytes) : tagged? tag ⟨tag, content⟩ = some content := if_pos rfl

end Element

/-! ## Elements inside an element -/

/-- A part is shorter than the whole. -/
theorem length_le_wrap {tag : UInt8} {parts : List Element} {e : Element} (h : e ∈ parts) :
    e.encode.length ≤ (wrap tag parts).content.length := by
  obtain ⟨front, back, rfl⟩ := List.append_of_mem h
  simp only [wrap, List.map_append, List.map_cons, List.flatten_append, List.flatten_cons, List.length_append]
  omega

/-- What was put into an element that is not too long is taken out of it. -/
theorem inside?_wrap {tag : UInt8} {parts : List Element} (hlength : (wrap tag parts).content.length ≤ maxLength)
    (hknown : ∀ e ∈ parts, Tag.isKnown e.tag = true) : (wrap tag parts).inside? tag = some parts := by
  rw [Element.inside?, wrap, Element.tagged?_mk, Option.bind_some]
  refine Element.list?_encode fun e he => ⟨hknown e he, ?_⟩
  exact Nat.le_trans (Nat.le_of_lt e.length_lt_encode) (Nat.le_trans (length_le_wrap he) hlength)

/-- A part of an element that is not too long is not, either. -/
theorem length_le_of_mem {tag : UInt8} {parts : List Element} {e : Element} (h : e ∈ parts)
    (hlength : (wrap tag parts).content.length ≤ maxLength) : e.content.length ≤ maxLength :=
  Nat.le_trans (Nat.le_of_lt e.length_lt_encode) (Nat.le_trans (length_le_wrap h) hlength)

/-! ## Numbered fields -/

theorem number_implicitField : ∀ n < 31,
    Tag.implicitField n &&& 0xC0 = 0x80 ∧ (Tag.implicitField n &&& 0x1F).toNat = n := by decide

theorem number_explicitField : ∀ n < 31,
    Tag.explicitField n &&& 0xC0 = 0x80 ∧ (Tag.explicitField n &&& 0x1F).toNat = n := by decide

theorem isKnown_field : ∀ n < 31, Tag.isKnown (Tag.implicitField n) = true ∧ Tag.isKnown (Tag.explicitField n) = true := by
  decide

/-- A field is told by its number, whether it is written around an element or in place of its tag. -/
theorem fieldNumber?_implicitField {n : Nat} (h : n < 31) (content : Bytes) :
    (⟨Tag.implicitField n, content⟩ : Element).fieldNumber? = some n := by
  obtain ⟨hclass, hnumber⟩ := number_implicitField n h
  rw [Element.fieldNumber?, if_pos hclass, hnumber]

theorem fieldNumber?_explicitField {n : Nat} (h : n < 31) (parts : List Element) :
    (wrap (Tag.explicitField n) parts).fieldNumber? = some n := by
  obtain ⟨hclass, hnumber⟩ := number_explicitField n h
  rw [Element.fieldNumber?, wrap, if_pos hclass, hnumber]

section

variable {n m : Nat} {e : Element} {rest : List Element}

@[simp] theorem takeField_nil : takeField n [] = (none, []) := rfl

theorem takeField_of_eq (h : e.fieldNumber? = some n) : takeField n (e :: rest) = (some e, rest) := by
  simp [takeField, h]

theorem takeField_of_lt (h : e.fieldNumber? = some m) (hlt : n < m) : takeField n (e :: rest) = (none, e :: rest) := by
  simp [takeField, h, Nat.lt_asymm hlt, Nat.ne_of_gt hlt]

theorem takeField_of_none (h : e.fieldNumber? = none) : takeField n (e :: rest) = (none, e :: rest) := by
  simp [takeField, h]

end

/-- What was written around an element is taken off it. -/
theorem explicit?_wrap {n : Nat} {e : Element} (hlength : (wrap (Tag.explicitField n) [e]).content.length ≤ maxLength)
    (hknown : Tag.isKnown e.tag = true) : (wrap (Tag.explicitField n) [e]).explicit? n = some e := by
  rw [Element.explicit?, inside?_wrap hlength (by simpa using hknown)]

end PolicySeal.Der
