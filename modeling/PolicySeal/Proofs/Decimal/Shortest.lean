import Mathlib.Algebra.Order.Field.Rat
import Mathlib.Tactic.FieldSimp
import Mathlib.Tactic.Ring
import PolicySeal.Decimal.Shortest
/-
  PolicySeal.Proofs.Decimal.Shortest — the shortest decimal of a double tells it from all others.

  The intervals of decimals that round to a double follow each other without gaps
  (`upper_eq_lower`), and of two neighbours only the one with the even significand has the
  point between them. So a decimal reads back as one magnitude at most (`rank_eq_of_readsBack`).
  Seventeen digits are always enough: a grid of seventeen digits is finer than the interval is
  wide (`spacing_lt`), so `shortest` finds a decimal, and that one reads back
  (`shortest_readsBack`). Hence doubles whose shortest decimals are equal have one magnitude
  (`rank_eq_of_value_eq`).
-/

namespace PolicySeal.Decimal

namespace Shortest

/-! ## Significands -/

/-- A subnormal magnitude is its own significand; above, the fraction is below the leading bit. -/
theorem parts_cases (d : Double) :
    (d.rank < 4503599627370496 ∧ d.parts = (d.rank, 0)) ∨
      ∃ e f, f < 4503599627370496 ∧ d.rank = (e + 1) * 4503599627370496 + f ∧ d.parts = (4503599627370496 + f, e) := by
  have hpow : Nat.pow 2 52 = 4503599627370496 := rfl
  rcases Nat.lt_or_ge d.rank 4503599627370496 with h | h
  · refine Or.inl ⟨h, ?_⟩
    simp only [Double.parts, hpow, Nat.div_eq_of_lt h, Nat.mod_eq_of_lt h, if_true]
  · have hne : d.rank / 4503599627370496 ≠ 0 := by omega
    refine Or.inr ⟨d.rank / 4503599627370496 - 1, d.rank % 4503599627370496, by omega, by omega, ?_⟩
    simp only [Double.parts, hpow, if_neg hne]

theorem parts_parity (d : Double) : d.parts.1 % 2 = d.rank % 2 := by
  rcases parts_cases d with ⟨_, hp⟩ | ⟨e, f, _, hr, hp⟩
  · rw [hp]
  · rw [hp, hr]
    simp only
    omega

theorem parts_lt (d : Double) : d.parts.1 < 9007199254740992 := by
  rcases parts_cases d with ⟨_, hp⟩ | ⟨e, f, _, hr, hp⟩ <;> (rw [hp]; simp only; omega)

theorem parts_pos {d : Double} (h : d.isZero = false) : 0 < d.parts.1 := by
  have hr : d.rank ≠ 0 := by simpa [Double.isZero] using h
  rcases parts_cases d with ⟨_, hp⟩ | ⟨e, f, _, hr, hp⟩ <;> (rw [hp]; simp only; omega)

/-! ## The intervals follow each other -/

theorem pow_ten_pos (n : Nat) : 0 < Nat.pow 10 n := Nat.pow_pos (by decide)
theorem pow_two_pos (n : Nat) : 0 < Nat.pow 2 n := Nat.pow_pos (by decide)

/-- A quarter of the weight of the last bit, as decimals are compared. -/
def unit (d : Double) : Nat := Nat.pow 2 d.parts.2 * Nat.pow 10 scale

/-- How many units the interval reaches down. -/
def reach (d : Double) : Nat := if d.parts.1 = Nat.pow 2 52 ∧ 0 < d.parts.2 then 1 else 2

theorem unit_pos (d : Double) : 0 < unit d := Nat.mul_pos (pow_two_pos _) (pow_ten_pos scale)

theorem lower_eq (d : Double) : lower d = (4 * d.parts.1 - reach d) * unit d := Nat.mul_assoc _ _ _
theorem upper_eq (d : Double) : upper d = (4 * d.parts.1 + 2) * unit d := Nat.mul_assoc _ _ _
theorem target_eq (d : Double) : target d = 4 * d.parts.1 * unit d := by
  simp only [target, Double.units, unit, Nat.mul_assoc]

theorem reach_cases (d : Double) : (reach d = 1 ∧ d.parts.1 = 4503599627370496 ∧ 0 < d.parts.2) ∨
    (reach d = 2 ∧ ¬ (d.parts.1 = 4503599627370496 ∧ 0 < d.parts.2)) := by
  have hpow : Nat.pow 2 52 = 4503599627370496 := rfl
  unfold reach
  rw [hpow]
  split
  · rename_i h
    exact Or.inl ⟨rfl, h⟩
  · rename_i h
    exact Or.inr ⟨rfl, h⟩

theorem reach_eq_two {d : Double} (h : d.parts.1 = 4503599627370496 → d.parts.2 = 0) : reach d = 2 := by
  rcases reach_cases d with ⟨_, hm, he⟩ | ⟨hr, _⟩
  · rw [h hm] at he
    cases he
  · exact hr

theorem reach_eq_one {d : Double} (hm : d.parts.1 = 4503599627370496) (he : 0 < d.parts.2) : reach d = 1 := by
  rcases reach_cases d with ⟨hr, _⟩ | ⟨_, hn⟩
  · exact hr
  · exact absurd ⟨hm, he⟩ hn

theorem upper_eq_lower {a b : Double} (h : b.rank = a.rank + 1) : upper a = lower b := by
  rw [upper_eq, lower_eq]
  rcases parts_cases a with ⟨ha, pa⟩ | ⟨e, f, hf, ha, pa⟩ <;> rcases parts_cases b with ⟨hb, pb⟩ | ⟨e', f', hf', hb, pb⟩
  · have hr : reach b = 2 := reach_eq_two (by simp [pb])
    rw [hr, unit, unit, pa, pb]
    simp only
    congr 1
    omega
  · obtain ⟨rfl, rfl⟩ : e' = 0 ∧ f' = 0 := by omega
    have hr : reach b = 2 := reach_eq_two (by simp [pb])
    rw [hr, unit, unit, pa, pb]
    simp only
    congr 1
    omega
  · omega
  · rcases Nat.lt_or_ge (f + 1) 4503599627370496 with hlt | hge
    · obtain ⟨rfl, rfl⟩ : e' = e ∧ f' = f + 1 := by omega
      have hr : reach b = 2 := reach_eq_two (by simp [pb])
      rw [hr, unit, unit, pa, pb]
      simp only
      congr 1
    · -- Rounding up carries into the exponent: the unit doubles.
      obtain ⟨rfl, rfl⟩ : e' = e + 1 ∧ f' = 0 := by omega
      obtain rfl : f = 4503599627370495 := by omega
      have hr : reach b = 1 := reach_eq_one (by simp [pb]) (by simp [pb])
      have hu : unit b = 2 * unit a := by
        rw [unit, unit, pa, pb]
        simp only [Nat.pow_eq, pow_succ]
        ring
      rw [hr, hu, pa, pb]
      simp only
      ring

theorem lower_lt_upper (d : Double) : lower d < upper d := by
  rw [lower_eq, upper_eq]
  exact Nat.mul_lt_mul_of_pos_right (by omega) (unit_pos d)

theorem upper_le_lower {a b : Double} (h : a.rank < b.rank) : upper a ≤ lower b := by
  obtain ⟨k, hk⟩ : ∃ k, b.rank = a.rank + 1 + k := ⟨b.rank - (a.rank + 1), by omega⟩
  induction k generalizing b with
  | zero => exact Nat.le_of_eq (upper_eq_lower hk)
  | succ k ih =>
    let c : Double := ⟨false, a.rank + 1 + k, by have := b.rank_lt; omega⟩
    have hac : upper a ≤ lower c := ih (by simp only [c]; omega) rfl
    have hcb : upper c = lower b := upper_eq_lower (by simp only [c]; omega)
    have := lower_lt_upper c
    omega

theorem readsBack_iff (d : Double) (x : Nat) : readsBack d x = true ↔
    (d.rank % 2 = 0 ∧ lower d ≤ x ∧ x ≤ upper d) ∨ (d.rank % 2 = 1 ∧ lower d < x ∧ x < upper d) := by
  rw [readsBack, parts_parity]
  split <;> simp only [Bool.and_eq_true, decide_eq_true_eq] <;> omega

/-- Of two neighbours one is odd, so the point between them reads back as the other only. -/
theorem not_readsBack_of_lt {a b : Double} {x : Nat} (h : a.rank < b.rank) (ha : readsBack a x = true) :
    readsBack b x = false := by
  apply Bool.eq_false_iff.mpr
  intro hb
  rw [readsBack_iff] at ha hb
  rcases Nat.lt_or_ge (a.rank + 1) b.rank with hfar | hnext
  · let c : Double := ⟨false, a.rank + 1, by have := b.rank_lt; omega⟩
    have hac : upper a = lower c := upper_eq_lower rfl
    have hcb : upper c ≤ lower b := upper_le_lower hfar
    have := lower_lt_upper c
    omega
  · have := upper_le_lower h
    omega

/-- A decimal reads back as one magnitude at most. -/
theorem rank_eq_of_readsBack {a b : Double} {x : Nat} (ha : readsBack a x = true) (hb : readsBack b x = true) :
    a.rank = b.rank := by
  rcases Nat.lt_trichotomy a.rank b.rank with h | h | h
  · rw [not_readsBack_of_lt h ha] at hb
    cases hb
  · exact h
  · rw [not_readsBack_of_lt h hb] at ha
    cases ha

theorem not_readsBack_zero {d : Double} (h : d.isZero = false) : readsBack d 0 = false := by
  apply Bool.eq_false_iff.mpr
  intro h0
  have hr : d.rank ≠ 0 := by simpa [Double.isZero] using h
  have hzero : lower (Double.zero false) < upper (Double.zero false) := lower_lt_upper _
  have := upper_le_lower (a := Double.zero false) (b := d) (Nat.pos_of_ne_zero hr)
  rw [readsBack_iff] at h0
  omega

/-! ## Seventeen digits are enough -/

/-- A power of two that is not to be evaluated. -/
@[irreducible] def powerOfTwo (n : Nat) : Nat := Nat.pow 2 n

theorem powerOfTwo_eq (n : Nat) : Nat.pow 2 n = powerOfTwo n := by rw [powerOfTwo]

theorem powerOfTwo_pos (n : Nat) : 0 < powerOfTwo n := by
  rw [← powerOfTwo_eq]
  exact pow_two_pos n

/-- The weight of a decimal's last place, as decimals are compared. -/
def weight (k : Nat) : Nat := Nat.pow 10 k * powerOfTwo 1076

theorem weight_pos (k : Nat) : 0 < weight k := Nat.mul_pos (pow_ten_pos k) (powerOfTwo_pos 1076)

theorem weight_add (j k : Nat) : weight (j + k) = Nat.pow 10 j * weight k := by
  have : Nat.pow 10 (j + k) = Nat.pow 10 j * Nat.pow 10 k := Nat.pow_add 10 j k
  rw [weight, weight, this, Nat.mul_assoc]

theorem weight_le_target {d : Double} (h : d.isZero = false) : weight 17 ≤ target d := by
  have hscale : weight 17 ≤ 4 * Nat.pow 10 scale := by
    rw [weight, ← powerOfTwo_eq]
    decide +kernel
  have hu : Nat.pow 10 scale ≤ unit d := Nat.le_mul_of_pos_left _ (pow_two_pos _)
  rw [target_eq]
  calc weight 17 ≤ 4 * Nat.pow 10 scale := hscale
    _ ≤ 4 * unit d := Nat.mul_le_mul_left _ hu
    _ ≤ 4 * d.parts.1 * unit d := Nat.mul_le_mul_right _ (by have := parts_pos h; omega)

/-- The leading digit of a value stands where `leading` says. -/
theorem weight_leading_le {d : Double} (h : d.isZero = false) : 17 ≤ leading d ∧ weight (leading d) ≤ target d := by
  have hdiv : ∀ k, weight k ≤ target d ↔ Nat.pow 10 k ≤ target d / powerOfTwo 1076 :=
    fun k => (Nat.le_div_iff_mul_le (powerOfTwo_pos 1076)).symm
  have hlen : ∀ k, 0 < k → (weight k ≤ target d ↔ k < (Nat.toDigits 10 (target d / powerOfTwo 1076)).length) := by
    intro k hk
    have hle : ∀ q, (Nat.toDigits 10 q).length ≤ k ↔ q < Nat.pow 10 k :=
      fun q => Nat.length_toDigits_le_iff (by decide) hk
    rw [hdiv, ← Nat.not_lt, ← hle, Nat.not_le]
  have hl : leading d = (Nat.toDigits 10 (target d / powerOfTwo 1076)).length - 1 := by
    simp only [leading, powerOfTwo_eq]
  have h17 := (hlen 17 (by decide)).mp (weight_le_target h)
  exact ⟨by omega, (hlen _ (by omega)).mpr (by omega)⟩

theorem spacing_lt {d : Double} (h : d.isZero = false) : lower d + weight (leading d + 1 - 17) < upper d := by
  obtain ⟨hl, htarget⟩ := weight_leading_le h
  have hsplit : weight (leading d) = Nat.pow 10 16 * weight (leading d + 1 - 17) := by
    rw [← weight_add]
    congr 1
    omega
  rw [hsplit, target_eq] at htarget
  have h16 : Nat.pow 10 16 = 10000000000000000 := rfl
  rw [h16] at htarget
  have hm := parts_lt d
  have hm0 := parts_pos h
  have hr := reach_cases d
  have hu := unit_pos d
  rw [lower_eq, upper_eq]
  generalize weight (leading d + 1 - 17) = w at *
  generalize unit d = u at *
  -- The interval is `2 + reach d` units wide, and `4 * m` units hold `10 ^ 16` spacings.
  have hwide : 4 * d.parts.1 < 10000000000000000 * (2 + reach d) := by omega
  have hspacing : w < (2 + reach d) * u := by
    have hlt := Nat.mul_lt_mul_of_pos_right hwide hu
    rw [Nat.mul_assoc 10000000000000000] at hlt
    omega
  have hsum : (4 * d.parts.1 + 2) * u = (4 * d.parts.1 - reach d) * u + (2 + reach d) * u := by
    rw [← Nat.add_mul]
    congr 1
    omega
  omega

/-! ## What is found -/

/-- One of the two neighbours of the value on a grid is taken, if one reads back. -/
theorem onGrid?_cases (d : Double) (n : Nat) :
    let k := leading d + 1 - n
    (∃ c, onGrid? d n = some ⟨c, (k : Int) - scale⟩ ∧ readsBack d (c * weight k) = true) ∨
      (onGrid? d n = none ∧ readsBack d (target d / weight k * weight k) = false ∧
        readsBack d ((target d / weight k + 1) * weight k) = false) := by
  simp only [onGrid?, powerOfTwo_eq]
  rw [← weight]
  generalize weight (leading d + 1 - n) = grid
  split
  · rename_i hb ha
    left
    by_cases hnear : target d - target d / grid * grid < (target d / grid + 1) * grid - target d ∨
        target d - target d / grid * grid = (target d / grid + 1) * grid - target d ∧ target d / grid % 2 = 0
    · exact ⟨_, if_pos hnear, hb⟩
    · exact ⟨_, if_neg hnear, ha⟩
  · rename_i hb _
    exact Or.inl ⟨_, rfl, hb⟩
  · rename_i _ ha
    exact Or.inl ⟨_, rfl, ha⟩
  · rename_i hb ha
    exact Or.inr ⟨rfl, hb, ha⟩

theorem onGrid?_readsBack {d : Double} {n : Nat} {x : Digits} (h : onGrid? d n = some x) :
    ∃ (k c : Nat), x = ⟨c, (k : Int) - scale⟩ ∧ readsBack d (c * weight k) = true := by
  rcases onGrid?_cases d n with ⟨c, hc, hr⟩ | ⟨hn, _⟩
  · rw [hc] at h
    exact ⟨_, c, (Option.some.inj h).symm, hr⟩
  · rw [hn] at h
    cases h

theorem exists_onGrid? {d : Double} (h : d.isZero = false) : ∃ x, onGrid? d 17 = some x := by
  rcases onGrid?_cases d 17 with ⟨c, hc, _⟩ | ⟨_, hb, ha⟩
  · exact ⟨_, hc⟩
  -- Were both neighbours outside, the interval would lie between them.
  have hfine := spacing_lt h
  have hin : lower d < target d ∧ target d < upper d := by
    have hm := parts_pos h
    have hr := reach_cases d
    rw [lower_eq, upper_eq, target_eq]
    exact ⟨Nat.mul_lt_mul_of_pos_right (by omega) (unit_pos d), Nat.mul_lt_mul_of_pos_right (by omega) (unit_pos d)⟩
  have hgrid := weight_pos (leading d + 1 - 17)
  rw [Bool.eq_false_iff, ne_eq, readsBack_iff] at hb ha
  generalize weight (leading d + 1 - 17) = grid at *
  have hbelow : target d / grid * grid ≤ target d := Nat.div_mul_le_self _ _
  have habove : target d < (target d / grid + 1) * grid := by
    rw [Nat.mul_comm]
    exact Nat.lt_mul_div_succ _ hgrid
  rw [Nat.add_mul, Nat.one_mul] at ha habove
  omega

end Shortest

/-! ## Values -/

/-- The number a decimal stands for. -/
def Digits.value (x : Digits) : ℚ := x.significand * (10 : ℚ) ^ x.exponent

theorem Digits.trim_value (x : Digits) : x.trim.value = x.value := by
  let cs := Nat.toDigits 10 x.significand
  let zeros := (cs.reverse.takeWhile (· == '0')).length
  by_cases h : x.significand = 0
  · simp [trim, h, value]
  -- The zeros at the end are the digits that were taken from the reversed text.
  have htail : cs.reverse.takeWhile (· == '0') = List.replicate zeros '0' :=
    List.eq_replicate_of_mem fun c hc => by simpa using List.all_eq_true.mp List.all_takeWhile c hc
  have hcs : cs = (cs.reverse.dropWhile (· == '0')).reverse ++ List.replicate zeros '0' := by
    have := congrArg List.reverse (List.takeWhile_append_dropWhile (p := (· == '0')) (l := cs.reverse))
    rw [List.reverse_append, htail, List.reverse_replicate, List.reverse_reverse] at this
    exact this.symm
  have hsig : x.significand = Nat.pow 10 zeros * Nat.ofDigitChars 10 (cs.reverse.dropWhile (· == '0')).reverse 0 := by
    have := Nat.ofDigitChars_ten_toDigits (n := x.significand)
    rw [show Nat.toDigits 10 x.significand = _ from hcs, Nat.ofDigitChars_append,
      Nat.ofDigitChars_replicate_zero] at this
    exact this.symm
  have hdiv : x.significand = Nat.pow 10 zeros * (x.significand / Nat.pow 10 zeros) :=
    (Nat.mul_div_cancel' ⟨_, hsig⟩).symm
  have htrim : x.trim = ⟨x.significand / Nat.pow 10 zeros, x.exponent + zeros⟩ := by
    rw [trim]
    exact if_neg h
  have hcast : (x.significand : ℚ) = (10 : ℚ) ^ zeros * (x.significand / Nat.pow 10 zeros : Nat) := by
    exact_mod_cast hdiv
  rw [htrim, value, value, hcast, zpow_add₀ (by norm_num), zpow_natCast]
  ring

namespace Shortest

/-- The shortest decimal of a double reads back as it. -/
theorem shortest_readsBack {d : Double} (h : d.isZero = false) :
    ∃ (k c : Nat), shortest d = ⟨c, (k : Int) - scale⟩ ∧ readsBack d (c * weight k) = true := by
  obtain ⟨x, hx⟩ := exists_onGrid? h
  have hsome : ((List.range 17).findSome? fun n => onGrid? d (n + 1)).isSome = true := by
    rw [List.findSome?_isSome_iff]
    exact ⟨16, by decide, by rw [hx]; rfl⟩
  obtain ⟨y, hy⟩ := Option.isSome_iff_exists.mp hsome
  obtain ⟨n, _, hn⟩ := List.exists_of_findSome?_eq_some hy
  rw [shortest, hy]
  exact onGrid?_readsBack hn

theorem significand_ne_zero {d : Double} (h : d.isZero = false) : (shortest d).significand ≠ 0 := by
  obtain ⟨k, c, hs, hr⟩ := shortest_readsBack h
  rw [hs]
  rintro rfl
  rw [Nat.zero_mul, not_readsBack_zero h] at hr
  cases hr

theorem value_ne_zero {d : Double} (h : d.isZero = false) : (shortest d).value ≠ 0 := by
  have := significand_ne_zero h
  rw [Digits.value]
  exact mul_ne_zero (by exact_mod_cast this) (zpow_ne_zero _ (by norm_num))

/-- Doubles with equal shortest decimals have one magnitude. -/
theorem rank_eq_of_value_eq {a b : Double} (ha : a.isZero = false) (hb : b.isZero = false)
    (h : (shortest a).value = (shortest b).value) : a.rank = b.rank := by
  obtain ⟨j, c, hsa, hra⟩ := shortest_readsBack ha
  obtain ⟨k, e, hsb, hrb⟩ := shortest_readsBack hb
  have hscaled : c * Nat.pow 10 j = e * Nat.pow 10 k := by
    rw [hsa, hsb, Digits.value, Digits.value] at h
    simp only [zpow_sub₀ (show (10 : ℚ) ≠ 0 by norm_num), zpow_natCast, ← mul_div_assoc] at h
    have := (div_left_inj' (pow_ne_zero _ (by norm_num))).mp h
    exact_mod_cast this
  have hpoint : c * weight j = e * weight k := by
    rw [weight, weight, ← Nat.mul_assoc, ← Nat.mul_assoc, hscaled]
  rw [hpoint] at hra
  exact rank_eq_of_readsBack hra hrb

end Shortest

end PolicySeal.Decimal
