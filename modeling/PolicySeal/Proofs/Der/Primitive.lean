import PolicySeal.Der.Oid
import PolicySeal.Der.Primitive
import PolicySeal.Proofs.Der.Element
/-
  PolicySeal.Proofs.Der.Primitive — numbers, bit strings and identifiers are read as written.

  A number is written in the least bytes, with a zero in front where the first of them would be
  read as a sign (`natural?_natural`). A bit string comes back if fewer than eight bits of it do
  not count, and none of no bytes (`BitString.Valid`). Of identifiers not all do: those in fewer
  than three bytes or with large arcs can be written, but are not read (`Oid.Readable`).
-/

namespace PolicySeal.Der

/-! ## Known tags -/

@[simp] theorem isKnown_boolean : Tag.isKnown Tag.boolean = true := rfl
@[simp] theorem isKnown_integer : Tag.isKnown Tag.integer = true := rfl
@[simp] theorem isKnown_bitString : Tag.isKnown Tag.bitString = true := rfl
@[simp] theorem isKnown_octetString : Tag.isKnown Tag.octetString = true := rfl
@[simp] theorem isKnown_null : Tag.isKnown Tag.null = true := rfl
@[simp] theorem isKnown_objectId : Tag.isKnown Tag.objectId = true := rfl
@[simp] theorem isKnown_sequence : Tag.isKnown Tag.sequence = true := rfl
@[simp] theorem isKnown_set : Tag.isKnown Tag.set = true := rfl

/-! ## Integers -/

/-- The bytes of a number are as few as can be, and the first of them is not taken for a sign. -/
theorem naturalBytes_spec (n : Nat) : ∃ b bs,
    naturalBytes n = b :: bs ∧ b < 0x80 ∧ Bytes.toNat (b :: bs) = n ∧ isMinimalInteger (b :: bs) = true := by
  by_cases hzero : n = 0
  · subst hzero
    exact ⟨0, [], rfl, by decide, rfl, rfl⟩
  obtain ⟨b, bs, hbytes, hb⟩ := Bytes.minimal_eq_cons hzero
  have hvalue : Bytes.toNat (b :: bs) = n := hbytes ▸ Bytes.toNat_minimal n
  by_cases hlow : b < 0x80
  · refine ⟨b, bs, by simp only [naturalBytes, hbytes, if_pos hlow], hlow, hvalue, ?_⟩
    cases bs with
    | nil => rfl
    | cons c bs =>
      have hne : b ≠ 0xFF := fun h => absurd (h ▸ hlow) (by decide)
      simp [isMinimalInteger, hb, hne]
  · refine ⟨0, b :: bs, by simp only [naturalBytes, hbytes, if_neg hlow], by decide, ?_, ?_⟩
    · rw [Bytes.toNat_cons 0, hvalue]
      simp
    · simp [isMinimalInteger, hlow]

/-- A number is read back from its least bytes. -/
theorem natural?_natural (n : Nat) : natural? (natural n) = some n := by
  obtain ⟨b, bs, hbytes, hlow, hvalue, hminimal⟩ := naturalBytes_spec n
  have hcontent : integerBytes? (natural n) = some (b :: bs) := by
    rw [integerBytes?, natural, Element.tagged?_mk, hbytes, Option.filter_some, if_pos hminimal]
  simp only [natural?, hcontent, Option.bind_eq_bind, Option.bind_some, if_pos hlow, hvalue]

theorem boolean?_boolean (b : Bool) : boolean? (boolean b) = some b := by cases b <;> rfl

/-! ## Bit strings -/

namespace BitString

/-- Fewer than eight bits do not count, and none of no bytes. -/
structure Valid (b : BitString) : Prop where
  unused : b.unused ≤ 7
  nonempty : b.unused ≠ 0 → b.bytes ≠ []

theorem valid_ofBytes (bs : Bytes) : (ofBytes bs).Valid := ⟨Nat.zero_le _, fun h => absurd rfl h⟩

theorem ofContent?_content {b : BitString} (h : b.Valid) : ofContent? b.content = some b := by
  have hunused := h.unused
  have hbyte : (UInt8.ofNat b.unused).toNat = b.unused := by simp; omega
  have hlow : ¬ 7 < UInt8.ofNat b.unused := by
    rw [UInt8.lt_iff_toNat_lt, hbyte]
    exact Nat.not_lt.mpr hunused
  have hsome : ¬ (UInt8.ofNat b.unused ≠ 0 ∧ b.bytes = []) := by
    rintro ⟨hne, hnil⟩
    exact h.nonempty (fun hzero => hne (by rw [hzero]; rfl)) hnil
  rw [content, ofContent?, if_neg (not_or.mpr ⟨hlow, hsome⟩), hbyte]

theorem ofElement?_toElement {b : BitString} (h : b.Valid) : ofElement? b.toElement = some b := by
  rw [ofElement?, toElement, Element.tagged?_mk, Option.bind_some, ofContent?_content h]

@[simp] theorem octets?_ofBytes (bs : Bytes) : (ofBytes bs).octets? = some bs := rfl

end BitString

/-! ## Identifiers -/

namespace Oid

/-- An identifier that is read from its encoding. -/
def Readable (o : Oid) : Prop := ofContent? o.content = some o

instance (o : Oid) : Decidable o.Readable := inferInstanceAs (Decidable (_ = _))

theorem ofElement?_toElement {o : Oid} (h : o.Readable) : ofElement? o.toElement = some o := by
  rw [ofElement?, toElement, Element.tagged?_mk, Option.bind_some, h]

theorem readable_of_ofElement? {o p : Oid} (h : ofElement? o.toElement = some p) : o.Readable := by
  rw [ofElement?, toElement, Element.tagged?_mk, Option.bind_some] at h
  rw [Readable, h]
  obtain ⟨-, hp⟩ := Option.ite_none_right_eq_some.mp h
  exact hp.symm

end Oid

end PolicySeal.Der
