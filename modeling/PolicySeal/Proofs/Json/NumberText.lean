import PolicySeal.Json.Number
import PolicySeal.Proofs.Decimal.Rounding
import PolicySeal.Proofs.Json.Numeral
/-
  PolicySeal.Proofs.Json.NumberText — what the text of a number says.

  The text of every number is a valid numeral (`exists_spelling`). Taken apart by the reader, that of a
  whole number has neither point nor exponent and gives its digits, and that of a double
  stands for the shortest decimal of its magnitude. So distinct numbers have distinct texts
  (`text_injective`), the two zeros and numbers of different kinds included.
-/

namespace PolicySeal.Json

open Decimal

/-! ## Digits -/

theorem isDigits_toDigits (n : Nat) : IsDigits (Nat.toDigits 10 n) :=
  ⟨Nat.toDigits_ne_nil, fun _ hc => Nat.isDigit_of_mem_toDigits (by decide) (by decide) hc⟩

theorem head_toDigits {n : Nat} (h : 0 < n) : (Nat.toDigits 10 n).head? ≠ some '0' := by
  induction n using Nat.strongRecOn with
  | ind n ih =>
    rcases Nat.lt_or_ge n 10 with hlt | hge
    · have hall : ∀ n < 10, 0 < n → [Nat.digitChar n].head? ≠ some '0' := by decide
      rw [Nat.toDigits_of_lt_base hlt]
      exact hall n hlt h
    · rw [Nat.toDigits_of_base_le (by decide) hge, List.head?_append_of_ne_nil _ Nat.toDigits_ne_nil]
      exact ih (n / 10) (by omega) (by omega)

theorem head_digits_nat {n : Nat} (h : (Nat.toDigits 10 n).head? = some '0') : Nat.toDigits 10 n = ['0'] := by
  rcases Nat.eq_zero_or_pos n with rfl | hpos
  · rfl
  · exact absurd h (head_toDigits hpos)

/-- Digits without a zero in front make a whole part, also with zeros behind them. -/
theorem whole_of_digits {ds : List Char} (hd : IsDigits ds) (h0 : ds.head? ≠ some '0') (n : Nat) :
    IsDigits (ds ++ List.replicate n '0') ∧
      ((ds ++ List.replicate n '0').head? = some '0' → ds ++ List.replicate n '0' = ['0']) := by
  refine ⟨⟨by simp [hd.1], fun c hc => ?_⟩, fun h => ?_⟩
  · rcases List.mem_append.mp hc with hc | hc
    · exact hd.2 c hc
    · rw [List.eq_of_mem_replicate hc]
      rfl
  · rw [List.head?_append_of_ne_nil _ hd.1] at h
    exact absurd h h0

theorem head_take {ds : List Char} (h0 : ds.head? ≠ some '0') (k : Nat) : (ds.take (k + 1)).head? ≠ some '0' := by
  cases ds with
  | nil => simp
  | cons d ds => simpa using h0

theorem IsDigits.take {ds : List Char} (h : IsDigits ds) (k : Nat) : IsDigits (ds.take (k + 1)) :=
  ⟨by simp [h.1], fun c hc => h.2 c (List.mem_of_mem_take hc)⟩

theorem ofDigitChars_lt {ds : List Char} (h : ∀ c ∈ ds, c.isDigit = true) : Nat.ofDigitChars 10 ds 0 < 10 ^ ds.length := by
  induction ds with
  | nil => decide
  | cons c ds ih =>
    obtain ⟨hc, hds⟩ := List.forall_mem_cons.mp h
    have hdigit : c.toNat - '0'.toNat ≤ 9 := by
      simp only [Char.isDigit, Bool.and_eq_true, decide_eq_true_eq, UInt32.le_iff_toNat_le] at hc
      have hnine : c.toNat ≤ 57 := hc.2
      have hzero : '0'.toNat = 48 := rfl
      omega
    have htail := ih hds
    rw [Nat.ofDigitChars_cons, Nat.ofDigitChars_eq_ofDigitChars_zero, Nat.mul_zero, Nat.zero_add, List.length_cons, pow_succ]
    have := Nat.mul_le_mul_left (10 ^ ds.length) hdigit
    omega

namespace Number

theorem valueOf_map (cs : List Char) : valueOf (cs.map digitValue) = Nat.ofDigitChars 10 cs 0 := by
  rw [valueOf, List.foldl_map, Nat.ofDigitChars_eq_foldl]
  rfl

end Number

/-! ## Numerals taken apart -/

/-- The parts of a spelling with the values of their digits. -/
def Spelling.numeral (s : Spelling) : Number.Numeral where
  negative := s.negative
  whole := s.whole.map Number.digitValue
  fraction := s.fraction.map (·.map Number.digitValue)
  exponent := s.exponent.map fun e => (e.1, e.2.map Number.digitValue)

namespace Number

/-- The reader takes a numeral apart as it was spelled. -/
theorem ofText_text {s : Spelling} (hs : s.Valid) : Numeral.ofText s.text = s.numeral := by
  have hends : Ends [] := fun _ h => nomatch h
  have hf := Spelling.head_fractionText (s := s) hends
  have he := Spelling.head_exponentText (s := s) hends
  rw [List.append_nil] at hf he
  obtain ⟨c, cs, hw, hc, -⟩ := hs.whole.exists_cons
  have hneg : (s.text.head? == some '-') = s.negative := by
    cases hn : s.negative <;> simp [Spelling.text, Spelling.signText, hn, hw, isDigit_ne_minus hc]
  have hbody : (if s.negative = true then s.text.drop 1 else s.text)
      = s.whole ++ (s.fractionText ++ s.exponentText) := by
    cases hn : s.negative <;> simp [Spelling.text, Spelling.signText, hn]
  obtain ⟨htake, hdrop⟩ := takeWhile_isDigit hs.whole.2 hf
  simp only [Numeral.ofText, hneg, hbody, htake, hdrop]
  cases hfr : s.fraction with
  | none =>
    cases hex : s.exponent with
    | none =>
      simp [Spelling.numeral, Spelling.fractionText, Spelling.exponentText, hfr, hex]
    | some e =>
      obtain ⟨negative, ds⟩ := e
      cases negative <;> simp [Spelling.numeral, Spelling.fractionText, Spelling.exponentText, hfr, hex]
  | some ds =>
    obtain ⟨htd, hdd⟩ := takeWhile_isDigit (hs.fraction ds hfr).2 fun c hc => (he c hc).1
    cases hex : s.exponent with
    | none =>
      simp only [Spelling.exponentText, hex, List.append_nil] at htd hdd
      simp [Spelling.numeral, Spelling.fractionText, Spelling.exponentText, hfr, hex, htd, hdd]
    | some e =>
      obtain ⟨negative, es⟩ := e
      simp only [Spelling.exponentText, hex] at htd hdd
      cases negative <;>
        simp_all [Spelling.numeral, Spelling.fractionText, Spelling.exponentText]

/-- What a numeral stands for without its sign. -/
def Numeral.magnitude (n : Numeral) : ℚ :=
  valueOf (n.whole ++ n.fraction.getD []) *
    (10 : ℚ) ^ (((n.exponent.map fun e => if e.1 then -(valueOf e.2 : Int) else valueOf e.2).getD 0)
      - (n.fraction.getD []).length)

theorem magnitude_numeral (s : Spelling) : s.numeral.magnitude =
    Nat.ofDigitChars 10 (s.whole ++ s.fraction.getD []) 0 *
      (10 : ℚ) ^ (((s.exponent.map fun e => if e.1 then -(Nat.ofDigitChars 10 e.2 0 : Int)
        else Nat.ofDigitChars 10 e.2 0).getD 0) - (s.fraction.getD []).length) := by
  rw [Numeral.magnitude, ← valueOf_map]
  cases hf : s.fraction <;> cases he : s.exponent <;> simp [Spelling.numeral, hf, he, valueOf_map]

/-! ## The texts of numbers -/

theorem wholeText_spelling (i : Int) :
    let s : Spelling := ⟨decide (i < 0), Nat.toDigits 10 i.natAbs, none, none⟩
    s.Valid ∧ s.text = wholeText i := by
  refine ⟨{ whole := isDigits_toDigits _
            zero := head_digits_nat
            fraction := fun _ h => nomatch h
            exponent := fun _ h => nomatch h }, ?_⟩
  simp [Spelling.text, Spelling.signText, Spelling.fractionText, Spelling.exponentText, wholeText]

/-- More than any text of a double has for its digits, the point left out. -/
def significandLimit : Nat := Nat.pow 10 18

/-- The digits of a numeral on both sides of the point, as one number. -/
def Numeral.significand (n : Numeral) : Nat := valueOf (n.whole ++ n.fraction.getD [])

theorem significand_numeral (s : Spelling) :
    s.numeral.significand = Nat.ofDigitChars 10 (s.whole ++ s.fraction.getD []) 0 := by
  rw [Numeral.significand, ← valueOf_map]
  cases hf : s.fraction <;> simp [Spelling.numeral, hf]

/-- A numeral with a point or an exponent, of the given sign and magnitude and with no more digits than a double needs. -/
def SpellsFloat (text : List Char) (negative : Bool) (x : ℚ) : Prop :=
  ∃ s : Spelling, s.Valid ∧ s.text = text ∧ s.negative = negative ∧ (s.fraction ≠ none ∨ s.exponent ≠ none) ∧
    s.numeral.significand < significandLimit ∧ s.numeral.magnitude = x

/-- The digits of a number that is not zero. -/
structure DigitsOf (n : Nat) (digits : List Char) : Prop where
  all : IsDigits digits
  value : Nat.ofDigitChars 10 digits 0 = n
  head : digits.head? ≠ some '0'

theorem digitsOf_toDigits {n : Nat} (h : 0 < n) : DigitsOf n (Nat.toDigits 10 n) :=
  ⟨isDigits_toDigits n, Nat.ofDigitChars_ten_toDigits, head_toDigits h⟩

section

variable {n k : Nat} {digits : List Char}

/-- All digits stand behind the point, after zeros. -/
theorem spells_plain_behind (h : DigitsOf n digits) (hn : n < significandLimit) (k : Nat) : SpellsFloat (plain digits (.negSucc k)) false
    (n * (10 : ℚ) ^ (Int.negSucc k + 1 - digits.length)) := by
  have hfraction : IsDigits (List.replicate k '0' ++ digits) := by
    refine ⟨by simp [h.all.1], fun c hc => ?_⟩
    rcases List.mem_append.mp hc with hc | hc
    · rw [List.eq_of_mem_replicate hc]
      rfl
    · exact h.all.2 c hc
  have hzeros : Nat.ofDigitChars 10 (['0'] ++ (List.replicate k '0' ++ digits)) 0 = n := by
    simp [Nat.ofDigitChars_append, Nat.ofDigitChars_cons, h.value]
  refine ⟨⟨false, ['0'], some (List.replicate k '0' ++ digits), none⟩,
    { whole := by simp [IsDigits], zero := by simp, fraction := ?_, exponent := by simp }, ?_, rfl, Or.inl (by simp), ?_,
    ?_⟩
  · intro ds hds
    cases hds
    exact hfraction
  · simp [Spelling.text, Spelling.signText, Spelling.fractionText, Spelling.exponentText, plain]
  · rw [significand_numeral]
    simp only [Option.getD_some, hzeros]
    exact hn
  · rw [magnitude_numeral]
    simp only [Option.getD_some, hzeros]
    congr 2
    simp only [Option.map_none, Option.getD_none, List.length_append, List.length_replicate]
    omega

/-- The point falls between two of the digits. -/
theorem spells_plain_between (h : DigitsOf n digits) (hn : n < significandLimit) (hlt : k + 1 < digits.length) :
    SpellsFloat (plain digits (.ofNat k)) false (n * (10 : ℚ) ^ (Int.ofNat k + 1 - digits.length)) := by
  have hdrop : digits.drop (k + 1) ≠ [] := by simpa using hlt
  have hzero : k + 1 - digits.length = 0 := by omega
  refine ⟨⟨false, digits.take (k + 1), some (digits.drop (k + 1)), none⟩,
    { whole := h.all.take k
      zero := fun hhead => absurd hhead (head_take h.head k)
      fraction := ?_
      exponent := by simp }, ?_, rfl, Or.inl (by simp), ?_, ?_⟩
  · intro ds hds
    cases hds
    exact ⟨hdrop, fun c hc => h.all.2 c (List.mem_of_mem_drop hc)⟩
  · simp [Spelling.text, Spelling.signText, Spelling.fractionText, Spelling.exponentText, plain, hzero, hlt]
  · rw [significand_numeral]
    simp only [Option.getD_some, List.take_append_drop, h.value]
    exact hn
  · rw [magnitude_numeral]
    simp only [Option.getD_some, List.take_append_drop, h.value]
    congr 2
    simp only [Option.map_none, Option.getD_none, List.length_drop, Int.ofNat_eq_natCast]
    omega

/-- All digits stand in front of the point, with zeros up to it. -/
theorem spells_plain_before (h : DigitsOf n digits) (hk : k ≤ 15) (hge : digits.length ≤ k + 1) :
    SpellsFloat (plain digits (.ofNat k)) false (n * (10 : ℚ) ^ (Int.ofNat k + 1 - digits.length)) := by
  obtain ⟨hwhole, hzero⟩ := whole_of_digits h.all h.head (k + 1 - digits.length)
  refine ⟨⟨false, digits ++ List.replicate (k + 1 - digits.length) '0', some ['0'], none⟩,
    { whole := hwhole, zero := hzero, fraction := ?_, exponent := by simp }, ?_, rfl, Or.inl (by simp), ?_, ?_⟩
  · intro ds hds
    cases hds
    simp [IsDigits]
  · simp [Spelling.text, Spelling.signText, Spelling.fractionText, Spelling.exponentText, plain,
      List.take_of_length_le hge, hge]
  · rw [significand_numeral]
    have hdigits : ∀ c ∈ digits ++ List.replicate (k + 1 - digits.length) '0' ++ ['0'], c.isDigit = true := by
      intro c hc
      rcases List.mem_append.mp hc with hc | hc
      · exact hwhole.2 c hc
      · rw [List.mem_singleton.mp hc]
        rfl
    refine Nat.lt_of_lt_of_le (ofDigitChars_lt hdigits) (Nat.pow_le_pow_right (by decide) ?_)
    simp only [Option.getD_some, List.length_append, List.length_replicate, List.length_singleton]
    omega
  · have hten : Nat.ofDigitChars 10 (digits ++ List.replicate (k + 1 - digits.length) '0' ++ ['0']) 0
        = 10 * (10 ^ (k + 1 - digits.length) * n) := by
      simp [Nat.ofDigitChars_append, Nat.ofDigitChars_cons, h.value]
    have hexp : Int.ofNat k + 1 - digits.length = ((k + 1 - digits.length : Nat) : Int) := by
      rw [Int.ofNat_eq_natCast]
      omega
    rw [magnitude_numeral]
    simp only [Option.getD_some, hten]
    rw [hexp, zpow_natCast]
    push_cast
    simp only [Option.map_none, Option.getD_none, List.length_singleton, Nat.cast_one, zero_sub, zpow_neg, zpow_one]
    field_simp

/-- Digits with the point where plain notation puts it. -/
theorem spells_plain (h : DigitsOf n digits) (hn : n < significandLimit) {leading : Int} (hleading : leading ≤ 15) :
    SpellsFloat (plain digits leading) false (n * (10 : ℚ) ^ (leading + 1 - digits.length)) := by
  cases leading with
  | negSucc k => exact spells_plain_behind h hn k
  | ofNat k =>
    rcases Nat.lt_or_ge (k + 1) digits.length with hlt | hge
    · exact spells_plain_between h hn hlt
    · exact spells_plain_before h (Int.ofNat_le.mp hleading) hge

/-- Digits with the point after the first one, and an exponent. -/
theorem spells_scientific (h : DigitsOf n digits) (hn : n < significandLimit) (leading : Int) :
    SpellsFloat (scientific digits leading) false (n * (10 : ℚ) ^ (leading + 1 - digits.length)) := by
  have hsplit : digits.take 1 ++ digits.drop 1 = digits := List.take_append_drop 1 digits
  have hfraction : (if digits.drop 1 = [] then none else some (digits.drop 1)).getD [] = digits.drop 1 := by
    split
    · rename_i hnil
      exact hnil.symm
    · rfl
  refine ⟨⟨false, digits.take 1, if digits.drop 1 = [] then none else some (digits.drop 1),
      some (decide (leading < 0), Nat.toDigits 10 leading.natAbs)⟩,
    { whole := h.all.take 0
      zero := fun hhead => absurd hhead (head_take h.head 0)
      fraction := ?_
      exponent := ?_ }, ?_, rfl, Or.inr (by simp), ?_, ?_⟩
  · intro ds hds
    simp only at hds
    split at hds
    · cases hds
    · rename_i hne
      cases hds
      exact ⟨hne, fun c hc => h.all.2 c (List.mem_of_mem_drop hc)⟩
  · intro e he
    cases he
    exact isDigits_toDigits _
  · by_cases hne : digits.tail = []
    · simp [Spelling.text, Spelling.signText, Spelling.fractionText, Spelling.exponentText, scientific, hne]
    · simp [Spelling.text, Spelling.signText, Spelling.fractionText, Spelling.exponentText, scientific, hne]
  · rw [significand_numeral]
    simp only [hfraction, hsplit, h.value]
    exact hn
  · have hsign : (if decide (leading < 0) = true then -(leading.natAbs : Int) else leading.natAbs) = leading := by
      by_cases hlt : leading < 0
      · rw [if_pos (decide_eq_true hlt)]
        omega
      · rw [if_neg (by simpa using hlt)]
        omega
    have hlength := List.length_pos_of_ne_nil h.all.1
    rw [magnitude_numeral]
    simp only [hfraction, hsplit, h.value, Option.map_some, Option.getD_some, Nat.ofDigitChars_ten_toDigits, hsign]
    congr 2
    simp only [List.length_drop]
    omega

end

theorem trim_significand_pos {d : Double} (h : d.isZero = false) : 0 < (shortest d).trim.significand := by
  refine Nat.pos_of_ne_zero fun h0 => Shortest.value_ne_zero h ?_
  rw [← Digits.trim_value, Digits.value, h0]
  simp

theorem trim_significand_lt {d : Double} (h : d.isZero = false) : (shortest d).trim.significand < significandLimit := by
  have hlt := Shortest.significand_lt h
  rw [Digits.trim]
  split
  · exact Shortest.pow_ten_pos 18
  · exact Nat.lt_of_le_of_lt (Nat.div_le_self _ _) hlt

/-- The value that the text of a double stands for. -/
def writtenValue (d : Double) : ℚ := if d.isZero then 0 else (shortest d).value

theorem spells_magnitudeText (d : Double) : SpellsFloat (magnitudeText d) false (writtenValue d) := by
  cases hz : d.isZero with
  | true =>
    refine ⟨⟨false, ['0'], some ['0'], none⟩,
      { whole := by simp [IsDigits], zero := fun _ => rfl, fraction := ?_, exponent := by simp }, ?_, rfl,
      Or.inl (by simp), ?_, ?_⟩
    · intro ds hds
      cases hds
      simp [IsDigits]
    · simp [magnitudeText, hz, Spelling.text, Spelling.signText, Spelling.fractionText, Spelling.exponentText]
    · rw [significand_numeral]
      decide
    · simp [magnitude_numeral, writtenValue, hz, Nat.ofDigitChars_cons]
  | false =>
    have hdigits := digitsOf_toDigits (trim_significand_pos hz)
    have hvalue : ∀ len : Nat, ((shortest d).trim.significand : ℚ) *
        (10 : ℚ) ^ ((shortest d).trim.exponent + len - 1 + 1 - len) = writtenValue d := by
      intro len
      rw [writtenValue, if_neg (by simp [hz]), ← Digits.trim_value, Digits.value]
      congr 2
      omega
    have hlimit := trim_significand_lt hz
    simp only [magnitudeText, hz, Bool.false_eq_true, if_false]
    split
    · rename_i hplain
      exact hvalue _ ▸ spells_plain hdigits hlimit hplain.2
    · exact hvalue _ ▸ spells_scientific hdigits hlimit _

theorem spells_floatText (d : Double) : SpellsFloat (floatText d) d.negative (writtenValue d) := by
  obtain ⟨s, hs, ht, hn, hform, hlimit, hm⟩ := spells_magnitudeText d
  refine ⟨{ s with negative := d.negative }, ⟨hs.whole, hs.zero, hs.fraction, hs.exponent⟩, ?_, rfl, hform, hlimit, hm⟩
  rw [floatText, ← ht]
  simp only [Spelling.text, Spelling.signText, hn, Bool.false_eq_true, if_false, List.nil_append]
  rfl

/-- The text of a number is a valid numeral. -/
theorem exists_spelling (n : Number) : ∃ s : Spelling, s.Valid ∧ s.text = n.text := by
  cases n with
  | whole i range => exact ⟨_, wholeText_spelling i⟩
  | float d =>
    obtain ⟨s, hs, ht, -⟩ := spells_floatText d
    exact ⟨s, hs, ht⟩

/-! ## Distinct numbers, distinct texts -/

theorem numeral_wholeText (i : Int) : Numeral.ofText (wholeText i) =
    ⟨decide (i < 0), (Nat.toDigits 10 i.natAbs).map digitValue, none, none⟩ := by
  obtain ⟨hs, ht⟩ := wholeText_spelling i
  rw [← ht, ofText_text hs]
  rfl

/-- The text of a double tells its sign and its value, that it is no whole number, and has few digits. -/
theorem numeral_floatText (d : Double) :
    (Numeral.ofText (floatText d)).negative = d.negative ∧
      ((Numeral.ofText (floatText d)).fraction ≠ none ∨ (Numeral.ofText (floatText d)).exponent ≠ none) ∧
      (Numeral.ofText (floatText d)).significand < significandLimit ∧
      (Numeral.ofText (floatText d)).magnitude = writtenValue d := by
  obtain ⟨s, hs, ht, hn, hform, hlimit, hm⟩ := spells_floatText d
  rw [← ht, ofText_text hs]
  refine ⟨hn, ?_, hlimit, hm⟩
  simpa [Spelling.numeral] using hform

theorem wholeText_injective {i j : Int} (h : wholeText i = wholeText j) : i = j := by
  have hi := numeral_wholeText i
  rw [h, numeral_wholeText j] at hi
  simp only [Numeral.mk.injEq, decide_eq_decide, and_true] at hi
  obtain ⟨hsign, hdigits⟩ := hi
  have hvalue := congrArg valueOf hdigits
  simp only [valueOf_map, Nat.ofDigitChars_ten_toDigits] at hvalue
  omega

theorem floatText_injective {a b : Double} (h : floatText a = floatText b) : a = b := by
  obtain ⟨hna, -, -, hma⟩ := numeral_floatText a
  obtain ⟨hnb, -, -, hmb⟩ := numeral_floatText b
  rw [h] at hna hma
  have hneg : a.negative = b.negative := hna.symm.trans hnb
  have hvalue : writtenValue a = writtenValue b := hma.symm.trans hmb
  have hrank : a.rank = b.rank := by
    simp only [writtenValue] at hvalue
    cases hza : a.isZero <;> cases hzb : b.isZero <;>
      simp only [hza, hzb, Bool.false_eq_true, if_false, if_true] at hvalue
    · exact Shortest.rank_eq_of_value_eq hza hzb hvalue
    · exact absurd hvalue (Shortest.value_ne_zero hza)
    · exact absurd hvalue.symm (Shortest.value_ne_zero hzb)
    · simp only [Double.isZero, beq_iff_eq] at hza hzb
      rw [hza, hzb]
  cases a
  cases b
  simp_all

/-- Distinct numbers are written as distinct numerals. -/
theorem text_injective {m n : Number} (h : m.text = n.text) : m = n := by
  cases m with
  | whole i hi =>
    cases n with
    | whole j hj =>
      obtain rfl := wholeText_injective h
      rfl
    | float d =>
      obtain ⟨-, hform, -⟩ := numeral_floatText d
      rw [show floatText d = wholeText i from h.symm, numeral_wholeText] at hform
      simp at hform
  | float d =>
    cases n with
    | whole j hj =>
      obtain ⟨-, hform, -⟩ := numeral_floatText d
      rw [show floatText d = wholeText j from h, numeral_wholeText] at hform
      simp at hform
    | float e => rw [floatText_injective h]

end Number

end PolicySeal.Json
