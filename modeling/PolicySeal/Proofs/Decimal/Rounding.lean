import Mathlib.Data.Nat.Log
import PolicySeal.Proofs.Decimal.Shortest
/-
  PolicySeal.Proofs.Decimal.Rounding — rounding keeps the order, and written doubles are in range.

  A larger quotient is not rounded to a smaller rank (`nearestRank_mono`): the ranks of each
  binade lie between those of its neighbours (`nearestRank_bounds`). So what the reader makes
  of a significand and a power of ten grows with the significand, and that it does not run out
  of range needs to be looked at for one significand to each power (`isSome_ofDigits?`).
-/

namespace PolicySeal.Decimal

/-! ## Rounding to whole numbers -/

theorem div_le_roundHalfEven (a b : Nat) : a / b ≤ roundHalfEven a b := by
  rw [roundHalfEven]
  split
  · exact Nat.le_refl _
  · split <;> omega

theorem roundHalfEven_le (a b : Nat) : roundHalfEven a b ≤ a / b + 1 := by
  rw [roundHalfEven]
  split
  · omega
  · split <;> omega

theorem roundHalfEven_mono {a a' : Nat} (b : Nat) (h : a ≤ a') : roundHalfEven a b ≤ roundHalfEven a' b := by
  rcases Nat.lt_or_eq_of_le (Nat.div_le_div_right (c := b) h) with hlt | heq
  · exact Nat.le_trans (roundHalfEven_le a b) (Nat.le_trans hlt (div_le_roundHalfEven a' b))
  · have hmod : a % b ≤ a' % b := by
      have := Nat.div_add_mod a b
      have := Nat.div_add_mod a' b
      rw [heq] at *
      omega
    simp only [roundHalfEven, heq]
    split <;> split <;> (try split) <;> (try split) <;> omega

namespace Double

/-! ## Rounding to doubles -/

/-- The width of the grid for a quotient, as a power of two. -/
def shiftOf (q : Nat) : Nat := q.log2 - 52

theorem nearestRank_eq (num den : Nat) : nearestRank num den =
    shiftOf (num * Nat.pow 2 1074 / den) * Nat.pow 2 52
      + roundHalfEven (num * Nat.pow 2 1074) (den * Nat.pow 2 (shiftOf (num * Nat.pow 2 1074 / den))) := rfl

/-- The quotient on its grid has 53 bits at most, and no fewer where the grid is wider than a unit. -/
theorem shiftOf_spec (q : Nat) : q / Nat.pow 2 (shiftOf q) < Nat.pow 2 53 ∧
    (0 < shiftOf q → Nat.pow 2 52 ≤ q / Nat.pow 2 (shiftOf q)) := by
  rcases Nat.eq_zero_or_pos q with rfl | hq
  · exact ⟨by decide, fun h => absurd h (by decide)⟩
  have hlow := Nat.log2_self_le hq.ne'
  have hhigh : q < 2 ^ (q.log2 + 1) := Nat.lt_log2_self
  constructor
  · rw [Nat.div_lt_iff_lt_mul (Shortest.pow_two_pos _)]
    refine Nat.lt_of_lt_of_le hhigh ?_
    rw [Nat.pow_eq, Nat.pow_eq, ← Nat.pow_add]
    exact Nat.pow_le_pow_right (by decide) (by simp only [shiftOf]; omega)
  · intro hpos
    rw [Nat.le_div_iff_mul_le (Shortest.pow_two_pos _), Nat.pow_eq, Nat.pow_eq, ← Nat.pow_add]
    refine Nat.le_trans (Nat.pow_le_pow_right (by decide) ?_) hlow
    simp only [shiftOf] at *
    omega

theorem shiftOf_mono {p q : Nat} (h : p ≤ q) : shiftOf p ≤ shiftOf q := by
  have hlog : p.log2 ≤ q.log2 := by
    rw [Nat.log2_eq_log_two, Nat.log2_eq_log_two]
    exact Nat.log_mono_right h
  exact Nat.sub_le_sub_right hlog 52

/-- The ranks that a grid gives. -/
theorem nearestRank_bounds (num den : Nat) :
    let s := shiftOf (num * Nat.pow 2 1074 / den)
    nearestRank num den ≤ (s + 2) * Nat.pow 2 52 ∧ (0 < s → (s + 1) * Nat.pow 2 52 ≤ nearestRank num den) := by
  intro s
  obtain ⟨hlt, hge⟩ := shiftOf_spec (num * Nat.pow 2 1074 / den)
  rw [Nat.div_div_eq_div_mul] at hlt hge
  have hle := roundHalfEven_le (num * Nat.pow 2 1074) (den * Nat.pow 2 s)
  have hdiv := div_le_roundHalfEven (num * Nat.pow 2 1074) (den * Nat.pow 2 s)
  have h53 : Nat.pow 2 53 = 2 * Nat.pow 2 52 := rfl
  rw [h53] at hlt
  rw [nearestRank_eq, Nat.add_mul, Nat.add_mul, Nat.one_mul]
  constructor
  · exact Nat.add_le_add_left (Nat.le_trans hle hlt) _
  · intro hs
    exact Nat.add_le_add_left (Nat.le_trans (hge hs) hdiv) _

theorem nearestRank_mono {a b : Nat} (den : Nat) (h : a ≤ b) : nearestRank a den ≤ nearestRank b den := by
  have hscaled : a * Nat.pow 2 1074 ≤ b * Nat.pow 2 1074 := Nat.mul_le_mul_right _ h
  rcases Nat.lt_or_eq_of_le (shiftOf_mono (Nat.div_le_div_right (c := den) hscaled)) with hlt | heq
  · refine Nat.le_trans (nearestRank_bounds a den).1 (Nat.le_trans ?_ ((nearestRank_bounds b den).2 (by omega)))
    exact Nat.mul_le_mul_right _ (by omega)
  · rw [nearestRank_eq, nearestRank_eq, heq]
    exact Nat.add_le_add_left (roundHalfEven_mono _ hscaled) _

theorem units_mono {a b : Double} (h : a.rank ≤ b.rank) : a.units ≤ b.units := by
  rcases Nat.lt_or_eq_of_le h with hlt | heq
  · have htarget : ∀ d : Double, Shortest.lower d ≤ Shortest.target d ∧ Shortest.target d ≤ Shortest.upper d := by
      intro d
      rw [Shortest.lower_eq, Shortest.upper_eq, Shortest.target_eq]
      exact ⟨Nat.mul_le_mul_right _ (by omega), Nat.mul_le_mul_right _ (by omega)⟩
    have hab : Shortest.target a ≤ Shortest.target b :=
      Nat.le_trans (htarget a).2 (Nat.le_trans (Shortest.upper_le_lower hlt) (htarget b).1)
    rw [Shortest.target, Shortest.target] at hab
    have := Nat.le_of_mul_le_mul_right hab (Shortest.pow_ten_pos _)
    omega
  · rw [units, units, parts, parts, heq]

/-! ## Digits read -/

theorem isSome_ofRatio?_mono {a b den : Nat} {s t : Bool} (h : a ≤ b)
    (hb : (ofRatio? s b den).isSome = true) : (ofRatio? t a den).isSome = true := by
  have hlt : nearestRank b den < rankLimit := by
    rw [ofRatio?] at hb
    split at hb
    · assumption
    · cases hb
  rw [ofRatio?, dif_pos (Nat.lt_of_le_of_lt (nearestRank_mono den h) hlt)]
  rfl

theorem rank_of_ofRatio? {n den : Nat} {negative : Bool} {d : Double} (h : ofRatio? negative n den = some d) :
    d.rank = nearestRank n den := by
  rw [ofRatio?] at h
  split at h <;> cases h
  rfl

theorem isSome_maxPower : (ofRatio? false (Nat.pow 10 maxPower) 1).isSome = true := by decide +kernel

theorem powerOfTen_eq {k : Nat} (hk : k ≤ maxPower) : ofRatio? false (Nat.pow 10 k) 1 = some (powerOfTen k) := by
  have hle : Nat.pow 10 k ≤ Nat.pow 10 maxPower := by
    generalize maxPower = j at hk
    exact Nat.pow_le_pow_right (by decide) hk
  obtain ⟨d, hd⟩ := Option.isSome_iff_exists.mp (isSome_ofRatio?_mono (t := false) hle isSome_maxPower)
  rw [powerOfTen, hd]
  rfl

/-- What can be scaled without getting out of range, can be with a smaller significand and a smaller power. -/
theorem isSome_ofDigits?_mono {m n j k : Nat} (hmn : m ≤ n) (hjk : j ≤ k) (hk : k ≤ maxPower)
    (h : (ofDigits? n (.ofNat k)).isSome = true) : (ofDigits? m (.ofNat j)).isSome = true := by
  obtain ⟨x, hx⟩ := Option.isSome_iff_exists.mp h
  rw [ofDigits?, Option.bind_eq_bind, Option.bind_eq_some_iff] at hx
  obtain ⟨d, hd, hx⟩ := hx
  obtain ⟨c, hc⟩ := Option.isSome_iff_exists.mp (isSome_ofRatio?_mono (t := false) hmn (Option.isSome_of_mem hd))
  have hcd : c.rank ≤ d.rank := by
    rw [rank_of_ofRatio? hc, rank_of_ofRatio? hd]
    exact nearestRank_mono 1 hmn
  have hpowers : (powerOfTen j).rank ≤ (powerOfTen k).rank := by
    rw [rank_of_ofRatio? (powerOfTen_eq (Nat.le_trans hjk hk)), rank_of_ofRatio? (powerOfTen_eq hk)]
    exact nearestRank_mono 1 (Nat.pow_le_pow_right (by decide) hjk)
  rw [ofDigits?, hc, Option.bind_eq_bind, Option.bind_some]
  simp only [if_pos hk, if_pos (Nat.le_trans hjk hk)] at hx ⊢
  exact isSome_ofRatio?_mono (Nat.mul_le_mul (units_mono hcd) (units_mono hpowers)) (Option.isSome_of_mem hx)

end Double

/-! ## Decimals of doubles are in range -/

namespace Shortest

open Double

theorem target_lt {d : Double} : target d < weight (leading d + 1) := by
  have hlength : (Nat.toDigits 10 (target d / powerOfTwo 1076)).length ≤ leading d + 1 := by
    simp only [leading, powerOfTwo_eq]
    omega
  have hdiv := (Nat.length_toDigits_le_iff (by decide) (Nat.succ_pos _)).mp hlength
  exact (Nat.div_lt_iff_lt_mul (powerOfTwo_pos 1076)).mp hdiv

theorem weight_mono {j k : Nat} (h : j ≤ k) : weight j ≤ weight k :=
  Nat.mul_le_mul_right _ (Nat.pow_le_pow_right (by decide) h)

/-- The sign plays no part. -/
theorem shortest_eq_of_rank {a b : Double} (h : a.rank = b.rank) : shortest a = shortest b := by
  obtain ⟨na, ra, ha⟩ := a
  obtain ⟨nb, rb, hb⟩ := b
  obtain rfl : ra = rb := h
  rfl

/-- Seventeen digits, or the next power of ten. -/
theorem significand_lt {d : Double} (h : d.isZero = false) : (shortest d).significand < Nat.pow 10 18 := by
  obtain ⟨x, hx⟩ := exists_onGrid? h
  obtain ⟨hleading, -⟩ := weight_leading_le h
  have hsome : ((List.range 17).findSome? fun n => onGrid? d (n + 1)).isSome = true := by
    rw [List.findSome?_isSome_iff]
    exact ⟨16, by decide, by rw [hx]; rfl⟩
  obtain ⟨y, hy⟩ := Option.isSome_iff_exists.mp hsome
  obtain ⟨n, hn, hgrid⟩ := List.exists_of_findSome?_eq_some hy
  rw [shortest, hy, Option.getD_some]
  rcases onGrid?_cases d (n + 1) with ⟨c, hc, hread⟩ | ⟨hnone, -⟩
  · rw [hc] at hgrid
    obtain rfl := Option.some.inj hgrid
    -- The decimal is in the interval, and that ends before twice the value.
    have hupper : c * weight (leading d + 1 - (n + 1)) ≤ upper d := by
      rw [readsBack_iff] at hread
      omega
    have htwice : upper d ≤ 2 * target d := by
      have hpos := parts_pos h
      rw [upper_eq, target_eq, ← Nat.mul_assoc]
      exact Nat.mul_le_mul_right _ (by omega)
    have hsplit : weight (leading d + 1) = Nat.pow 10 (n + 1) * weight (leading d + 1 - (n + 1)) := by
      rw [← weight_add]
      congr 1
      have := List.mem_range.mp hn
      omega
    have htarget := target_lt (d := d)
    rw [hsplit] at htarget
    have hlt : c * weight (leading d + 1 - (n + 1)) < 2 * Nat.pow 10 (n + 1) * weight (leading d + 1 - (n + 1)) := by
      rw [Nat.mul_assoc]
      omega
    refine Nat.lt_of_lt_of_le (Nat.lt_of_mul_lt_mul_right hlt) ?_
    have hpow : Nat.pow 10 (n + 1) ≤ Nat.pow 10 17 :=
      Nat.pow_le_pow_right (by decide) (by have := List.mem_range.mp hn; omega)
    have h18 : Nat.pow 10 18 = 10 * Nat.pow 10 17 := rfl
    omega
  · rw [hnone] at hgrid
    cases hgrid

def greatest : Double := ⟨false, rankLimit - 1, by decide⟩

/-- To each of the large powers of ten, the greatest significand whose product stays below the last interval. -/
theorem isSome_greatest : ∀ i < 19,
    (ofDigits? (min (Nat.pow 10 18) (lower greatest / weight (290 + i + scale))) (.ofNat (290 + i))).isSome = true := by
  decide +kernel

theorem isSome_ofDigits?_of_le {m e : Nat} (hm : m < Nat.pow 10 18) (he : e ≤ maxPower)
    (h : m * weight (e + scale) ≤ lower greatest) : (ofDigits? m (.ofNat e)).isSome = true := by
  have hmin : m ≤ min (Nat.pow 10 18) (lower greatest / weight (e + scale)) :=
    Nat.le_min.mpr ⟨Nat.le_of_lt hm, (Nat.le_div_iff_mul_le (weight_pos _)).mpr h⟩
  have hmax : maxPower = 308 := rfl
  rcases Nat.lt_or_ge e 290 with hlt | hge
  · refine isSome_ofDigits?_mono (k := 290) ?_ (by omega) (by omega) (isSome_greatest 0 (by decide))
    have hfits : Nat.pow 10 18 ≤ lower greatest / weight (290 + 0 + scale) := by decide +kernel
    exact Nat.le_trans (Nat.le_of_lt hm) (Nat.le_min.mpr ⟨Nat.le_refl _, hfits⟩)
  · obtain ⟨i, rfl⟩ : ∃ i, e = 290 + i := ⟨e - 290, by omega⟩
    exact isSome_ofDigits?_mono hmin (Nat.le_refl _) he (isSome_greatest i (by omega))

theorem isSome_ofDigits?_small {m : Nat} (hm : m < Nat.pow 10 18) (k : Nat) : (ofDigits? m (.negSucc k)).isSome = true := by
  have hlimit : (ofRatio? false (Nat.pow 10 18) 1).isSome = true := by decide +kernel
  obtain ⟨d, hd⟩ := Option.isSome_iff_exists.mp (isSome_ofRatio?_mono (t := false) (Nat.le_of_lt hm) hlimit)
  rw [ofDigits?, hd]
  rfl

theorem isSome_ofDigits?_zero (e : Int) : (ofDigits? 0 e).isSome = true := by
  cases e with
  | negSucc k => exact isSome_ofDigits?_small (Nat.pos_of_ne_zero (by decide)) k
  | ofNat k =>
    rcases Nat.lt_or_ge maxPower k with hlt | hle
    · have hzero : ofRatio? false 0 1 = some (zero false) := by decide +kernel
      rw [ofDigits?, hzero, Option.bind_eq_bind, Option.bind_some]
      simp only [if_neg (Nat.not_le.mpr hlt)]
      rfl
    · exact isSome_ofDigits?_of_le (Nat.pos_of_ne_zero (by decide)) hle (by simp)

theorem shortest_greatest : shortest greatest = ⟨17976931348623157, 292⟩ := by decide +kernel

theorem isSome_ofDigits?_greatest {m e k : Nat} (hm : m < Nat.pow 10 18) (hk : k = 292)
    (h : m * 10 ^ e = 17976931348623157 * 10 ^ k) : (ofDigits? m (.ofNat e)).isSome = true := by
  have h18 : Nat.pow 10 18 = 1000000000000000000 := rfl
  rcases Nat.lt_or_ge k e with hlarge | hle
  · -- The digits do not end in a zero.
    obtain ⟨i, rfl⟩ : ∃ i, e = k + (i + 1) := ⟨e - k - 1, by omega⟩
    have hcancel : 10 * (m * 10 ^ i) = 17976931348623157 := by
      refine Nat.eq_of_mul_eq_mul_right (pow_pos (by decide : 0 < 10) k) (Eq.trans ?_ h)
      rw [pow_add, pow_succ]
      ring
    omega
  · obtain ⟨i, rfl⟩ : ∃ i, k = e + i := ⟨k - e, by omega⟩
    obtain rfl : m = 17976931348623157 * 10 ^ i := by
      refine Nat.eq_of_mul_eq_mul_right (pow_pos (by decide : 0 < 10) e) (h.trans ?_)
      rw [pow_add]
      ring
    have hlt : i < 2 := by
      by_contra hge
      have hpow : 10 ^ 2 ≤ 10 ^ i := Nat.pow_le_pow_right (by decide) (by omega)
      omega
    rcases (by omega : (i = 0 ∧ e = 292) ∨ (i = 1 ∧ e = 291)) with ⟨rfl, rfl⟩ | ⟨rfl, rfl⟩ <;> decide +kernel

/-- Any spelling of the shortest decimal of a double is in range for the reader. -/
theorem isSome_ofDigits?_value {d : Double} (hd : d.isZero = false) {m : Nat} {e : Int} (hm : m < Nat.pow 10 18)
    (h : (m : ℚ) * (10 : ℚ) ^ e = (shortest d).value) : (ofDigits? m e).isSome = true := by
  cases e with
  | negSucc k => exact isSome_ofDigits?_small hm k
  | ofNat e =>
    rw [Int.ofNat_eq_natCast, zpow_natCast] at h
    rcases Nat.lt_or_ge d.rank (rankLimit - 1) with hlt | hge
    · obtain ⟨k, c, hs, hread⟩ := shortest_readsBack hd
      have hpoint : m * weight (e + scale) = c * weight k := by
        rw [hs, Digits.value, zpow_sub₀ (by norm_num), zpow_natCast, zpow_natCast, ← mul_div_assoc,
          eq_div_iff (pow_ne_zero _ (by norm_num)), mul_assoc, ← pow_add] at h
        have hnat : m * 10 ^ (e + scale) = c * 10 ^ k := by exact_mod_cast h
        rw [weight, weight, ← Nat.mul_assoc, ← Nat.mul_assoc]
        exact congrArg (· * powerOfTwo 1076) hnat
      have hbelow : m * weight (e + scale) ≤ lower greatest := by
        have hupper : c * weight k ≤ upper d := by
          rw [readsBack_iff] at hread
          omega
        rw [hpoint]
        exact Nat.le_trans hupper (upper_le_lower hlt)
      refine isSome_ofDigits?_of_le hm (Nat.le_of_not_lt fun hlarge => ?_) hbelow
      have hpos : 0 < m := Nat.pos_of_ne_zero fun h0 => value_ne_zero hd (by rw [← h, h0, Nat.cast_zero, zero_mul])
      have hover : lower greatest < weight (maxPower + 1 + scale) := by decide +kernel
      have hweight : weight (maxPower + 1 + scale) ≤ weight (e + scale) := weight_mono (by omega)
      have := Nat.le_mul_of_pos_left (weight (e + scale)) hpos
      omega
    · have hrank : d.rank = greatest.rank := Nat.le_antisymm (Nat.le_sub_one_of_lt d.rank_lt) hge
      obtain ⟨k, hk⟩ : ∃ k : Nat, k = 292 := ⟨_, rfl⟩
      have hvalue : (shortest d).value = 17976931348623157 * (10 : ℚ) ^ k := by
        have hexponent : (292 : Int) = k := by rw [hk]; rfl
        rw [shortest_eq_of_rank hrank, shortest_greatest, Digits.value, hexponent, zpow_natCast]
        norm_cast
      rw [hvalue] at h
      exact isSome_ofDigits?_greatest hm hk (by exact_mod_cast h)

end Shortest

end PolicySeal.Decimal
