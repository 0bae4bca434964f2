import PolicySeal.Proofs.Json.NumberText
/-
  PolicySeal.Proofs.Json.NumberRead — every written number is read, and whole ones as they are.

  A numeral with few digits is read as its significand scaled by its power of ten
  (`Numeral.float?_eq`), and the texts of doubles are such numerals. So the reader finds a
  number in the text of any number (`isSome_ofText?_text`). It need not be the same one: the
  reader rounds more than once. A whole number always comes back (`readsBack_whole`).
-/

namespace PolicySeal.Json.Number

open Decimal

/-! ## The significand -/

theorem le_foldl_digits (start : Nat) (ds : List Nat) : start ≤ ds.foldl (fun n d => 10 * n + d) start := by
  induction ds generalizing start with
  | nil => exact Nat.le_refl _
  | cons d ds ih => exact Nat.le_trans (by omega) (ih (10 * start + d))

/-- Digits that fit 64 bits are all taken. -/
theorem take64_of_lt {start : Nat} {ds : List Nat}
    (h : ds.foldl (fun n d => 10 * n + d) start < 0x10000000000000000) :
    take64 start ds = (ds.foldl (fun n d => 10 * n + d) start, 0) := by
  induction ds generalizing start with
  | nil => rfl
  | cons d ds ih =>
    have hle := le_foldl_digits (10 * start + d) ds
    rw [List.foldl_cons] at h
    rw [take64, if_pos (by omega), ih h, List.foldl_cons]

namespace Numeral

/-- The power of ten at the last digit of the significand. -/
def power (n : Numeral) : Int :=
  ((n.exponent.map fun e => if e.1 then -(valueOf e.2 : Int) else valueOf e.2).getD 0) - (n.fraction.getD []).length

theorem magnitude_eq (n : Numeral) : n.magnitude = n.significand * (10 : ℚ) ^ n.power := rfl

theorem float?_eq {n : Numeral} (h : n.significand < 0x10000000000000000) :
    n.float? = (Double.ofDigits? n.significand n.power).map (·.withSign n.negative) := by
  have hsplit : n.significand = (n.fraction.getD []).foldl (fun n d => 10 * n + d) (valueOf n.whole) :=
    List.foldl_append
  rw [hsplit] at h ⊢
  have hwhole : take64 0 n.whole = (valueOf n.whole, 0) :=
    take64_of_lt (Nat.lt_of_le_of_lt (le_foldl_digits (valueOf n.whole) (n.fraction.getD [])) h)
  have hpower : ∀ scale : Int, (0 : Nat) - ((n.fraction.getD []).length - 0 : Nat) + scale
      = scale - (n.fraction.getD []).length := by
    intro scale
    omega
  simp only [float?, hwhole, take64_of_lt h, hpower]
  congr 2
  rw [power]
  rcases n.exponent with _ | ⟨negative, ds⟩
  · rfl
  · cases negative <;> rfl

end Numeral

/-! ## Written numbers -/

theorem isSome_float?_floatText (d : Double) : (Numeral.ofText (floatText d)).float?.isSome = true := by
  obtain ⟨-, -, hlimit, hmagnitude⟩ := numeral_floatText d
  generalize Numeral.ofText (floatText d) = n at hlimit hmagnitude
  rw [Numeral.magnitude_eq, writtenValue] at hmagnitude
  rw [Numeral.float?_eq (Nat.lt_trans hlimit (by decide)), Option.isSome_map]
  cases hzero : d.isZero with
  | true =>
    rw [hzero, if_pos rfl] at hmagnitude
    have hsignificand : n.significand = 0 := by
      rcases mul_eq_zero.mp hmagnitude with h | h
      · exact_mod_cast h
      · exact absurd h (zpow_ne_zero _ (by norm_num))
    rw [hsignificand]
    exact Shortest.isSome_ofDigits?_zero n.power
  | false =>
    rw [hzero] at hmagnitude
    exact Shortest.isSome_ofDigits?_value hzero hlimit hmagnitude

/-- The text of the number reads as the number. -/
def ReadsBack (n : Number) : Prop := ofText? n.text = some n

instance (n : Number) : Decidable n.ReadsBack := inferInstanceAs (Decidable (_ = _))

/-- Whole numbers always come back. -/
theorem readsBack_whole (i : Int) (range : -0x8000000000000000 ≤ i ∧ i < 0x10000000000000000) :
    (Number.whole i range).ReadsBack := by
  have hvalue : valueOf ((Nat.toDigits 10 i.natAbs).map digitValue) = i.natAbs := by
    rw [valueOf_map, Nat.ofDigitChars_ten_toDigits]
  have hsign : (if i < 0 then -(i.natAbs : Int) else i.natAbs) = i := by split <;> omega
  have hzero : ¬ (i < 0 ∧ i.natAbs = 0) := by omega
  simp only [ReadsBack, text, ofText?, numeral_wholeText, Numeral.whole?, hvalue, decide_eq_true_eq, hsign, hzero,
    range, and_self, if_false, dite_true, Option.isSome_none, Bool.or_self, Bool.false_eq_true]
  rfl

/-- The number that the text of a number reads as. -/
def again (n : Number) : Number := (ofText? n.text).getD n

/-- A number is found in the text of every number. -/
theorem ofText?_text (n : Number) : ofText? n.text = some n.again := by
  have hsome : (ofText? n.text).isSome = true := by
    cases n with
    | whole i range => rw [readsBack_whole i range, Option.isSome_some]
    | float d =>
      rw [ofText?, text, Option.orElse_eq_orElse, Option.orElse_eq_or, Option.isSome_or, Option.isSome_map,
        isSome_float?_floatText, Bool.or_true]
  obtain ⟨m, hm⟩ := Option.isSome_iff_exists.mp hsome
  rw [again, hm, Option.getD_some]

theorem again_eq_self_iff {n : Number} : n.again = n ↔ n.ReadsBack := by
  rw [ReadsBack, ofText?_text, Option.some.injEq]

end PolicySeal.Json.Number
