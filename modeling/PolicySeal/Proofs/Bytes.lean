import PolicySeal.Proofs.Binding.Signing
/-
  PolicySeal.Proofs.Bytes — numbers as bytes, and back.

  Bytes are the digits of a number to the base 256. Written to a length and read again a
  number loses what the length cannot hold (`toNat_ofNat`), and bytes read as a number and
  written to their own length come back as they were (`ofNat_toNat`). The least bytes of a
  number hold it whole (`toNat_minimal`), and the first of them is not zero.
-/

namespace PolicySeal.Bytes

/-- The least number that does not fit into so many bytes. -/
abbrev limit (length : Nat) : Nat := Nat.pow 256 length

theorem limit_succ (length : Nat) : limit (length + 1) = limit length * 256 := rfl

theorem limit_pos (length : Nat) : 0 < limit length := Nat.pow_pos (by decide)

/-! ## Reading -/

@[simp] theorem toNat_nil : toNat [] = 0 := rfl

theorem foldl_eq (n : Nat) (bs : Bytes) :
    bs.foldl (fun n b => 256 * n + b.toNat) n = n * limit bs.length + toNat bs := by
  induction bs generalizing n with
  | nil => simp [limit]
  | cons b bs ih =>
    have hn : (256 * n + b.toNat) * limit bs.length = n * limit (bs.length + 1) + b.toNat * limit bs.length := by
      rw [limit_succ, Nat.add_mul, Nat.mul_comm 256 n, Nat.mul_assoc, Nat.mul_comm 256]
    rw [toNat, List.foldl_cons, List.foldl_cons, ih, ih (256 * 0 + b.toNat), List.length_cons, hn]
    simp [Nat.add_assoc]

@[simp] theorem toNat_cons (b : UInt8) (bs : Bytes) : toNat (b :: bs) = b.toNat * limit bs.length + toNat bs := by
  rw [toNat, List.foldl_cons, foldl_eq]
  simp

theorem toNat_lt (bs : Bytes) : toNat bs < limit bs.length := by
  induction bs with
  | nil => exact limit_pos 0
  | cons b bs ih =>
    have hb : (b.toNat + 1) * limit bs.length ≤ 256 * limit bs.length := Nat.mul_le_mul_right _ b.toNat_lt
    rw [toNat_cons, List.length_cons, limit_succ]
    rw [Nat.add_mul] at hb
    omega

/-! ## Writing -/

/-- What the length cannot hold makes no difference. -/
theorem ofNat_mul_add (length q n : Nat) : ofNat length (q * limit length + n) = ofNat length n := by
  induction length generalizing q with
  | zero => rfl
  | succ length ih =>
    have hq : q * limit (length + 1) + n = q * 256 * limit length + n := by
      rw [limit_succ, Nat.mul_comm (limit length), Nat.mul_assoc]
    have hfirst : (q * 256 * limit length + n) / limit length = q * 256 + n / limit length := by
      rw [Nat.add_comm, Nat.add_mul_div_right _ _ (limit_pos length), Nat.add_comm]
    have hbyte : UInt8.ofNat (q * 256 + n / limit length) = UInt8.ofNat (n / limit length) := by
      apply UInt8.toNat_inj.mp
      simp
    rw [ofNat, ofNat, hq, hfirst, hbyte, ih]

theorem toNat_ofNat (length n : Nat) : toNat (ofNat length n) = n % limit length := by
  induction length with
  | zero => rw [limit, Nat.pow, Nat.mod_one]; rfl
  | succ length ih =>
    have hbyte : (UInt8.ofNat (n / limit length)).toNat = n / limit length % 256 := by simp
    rw [ofNat, toNat_cons, length_ofNat, ih, hbyte, limit_succ, Nat.mod_mul, Nat.add_comm, Nat.mul_comm]

/-- Bytes are told by their length and the number they are. -/
theorem ofNat_toNat (bs : Bytes) : ofNat bs.length (toNat bs) = bs := by
  induction bs with
  | nil => rfl
  | cons b bs ih =>
    have hfirst : (b.toNat * limit bs.length + toNat bs) / limit bs.length = b.toNat := by
      rw [Nat.add_comm, Nat.add_mul_div_right _ _ (limit_pos _), Nat.div_eq_of_lt (toNat_lt bs), Nat.zero_add]
    rw [List.length_cons, ofNat, toNat_cons, hfirst, ofNat_mul_add, ih, UInt8.ofNat_toNat]

theorem toNat_ofNat_of_lt {length n : Nat} (h : n < limit length) : toNat (ofNat length n) = n := by
  rw [toNat_ofNat, Nat.mod_eq_of_lt h]

/-- As many bytes as a number needs hold it. -/
theorem lt_limit_width (n : Nat) : n < limit (width n) := by
  rw [width]
  split
  · rename_i h
    subst h
    exact limit_pos 0
  · rename_i h
    have hlog : n < Nat.pow 2 (n.log2 + 1) := Nat.lt_log2_self
    have hpow : ∀ k, limit k = Nat.pow 2 (8 * k) := fun k => (Nat.pow_mul 2 8 k).symm
    have hle : Nat.pow 2 (n.log2 + 1) ≤ Nat.pow 2 (8 * (n.log2 / 8 + 1)) :=
      Nat.pow_le_pow_right (by decide) (by omega)
    rw [hpow]
    omega

/-! ## The least bytes -/

theorem length_minimal (n : Nat) : (minimal n).length = width n := length_ofNat _ _

theorem toNat_minimal (n : Nat) : toNat (minimal n) = n := toNat_ofNat_of_lt (lt_limit_width n)

/-- With one byte less a number would not be held. -/
theorem limit_le {n : Nat} (h : n ≠ 0) : limit (width n - 1) ≤ n := by
  have hpow : limit (n.log2 / 8) = Nat.pow 2 (8 * (n.log2 / 8)) := (Nat.pow_mul 2 8 _).symm
  have hle : Nat.pow 2 (8 * (n.log2 / 8)) ≤ Nat.pow 2 n.log2 := Nat.pow_le_pow_right (by decide) (by omega)
  have hlog : Nat.pow 2 n.log2 ≤ n := Nat.log2_self_le h
  rw [width, if_neg h, Nat.add_sub_cancel, hpow]
  exact Nat.le_trans hle hlog

/-- Some byte comes first where there is a number to hold, and it is not zero. -/
theorem minimal_eq_cons {n : Nat} (h : n ≠ 0) : ∃ b bs, minimal n = b :: bs ∧ b ≠ 0 := by
  obtain ⟨k, hk⟩ : ∃ k, width n = k + 1 := ⟨n.log2 / 8, if_neg h⟩
  have hlow : limit k ≤ n := by simpa [hk] using limit_le h
  have hhigh : n < limit k * 256 := by simpa only [hk, limit_succ] using lt_limit_width n
  refine ⟨_, _, by rw [minimal, hk, ofNat], fun hzero => ?_⟩
  have hfirst : 1 ≤ n / limit k := (Nat.one_le_div_iff (limit_pos k)).mpr hlow
  have hsmall : n / limit k < 256 := Nat.div_lt_of_lt_mul hhigh
  have hbyte : (UInt8.ofNat (n / limit k)).toNat = n / limit k := by simp; omega
  have hz : (UInt8.ofNat (n / limit k)).toNat = 0 := congrArg UInt8.toNat hzero
  omega

end PolicySeal.Bytes
