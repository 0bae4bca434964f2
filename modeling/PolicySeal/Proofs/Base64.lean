import PolicySeal.Base64
import PolicySeal.Proofs.Text.Blank
/-
  PolicySeal.Proofs.Base64 — encoded bytes are decoded to themselves.

  An encoding is groups of four symbols for three bytes and a last group for what is left
  (`encodeBytes_split`). The groups in front give their bytes back (`values_encodeBytes`).
  So does the last one (`lastGroup_encodeBytes`), of which it is told by its values when it
  has bytes (`lastGroup_eq_ok_iff`). Nothing of an encoding is white space (`isBlank_encode`),
  so the value of a signature block that holds one is the bytes that were encoded
  (`decodeSignatureValue_encode`). No value is decoded to nothing (`ne_nil_of_decodeSignatureValue`).
-/

namespace PolicySeal

namespace Base64

/-! ## Symbols -/

theorem value?_symbol : ∀ n < 64, value? (symbol n) = some n := by decide
theorem symbol_ne_pad : ∀ n < 64, symbol n ≠ pad := by decide

/-- The value of a group of three bytes. -/
def groupValue (a b c : UInt8) : Nat := a.toNat * 0x10000 + b.toNat * 0x100 + c.toNat

theorem groupValue_lt (a b c : UInt8) : groupValue a b c < 0x1000000 := by
  have := a.toNat_lt
  have := b.toNat_lt
  have := c.toNat_lt
  simp only [groupValue]
  omega

theorem encodeBytes_three (a b c : UInt8) (rest : Bytes) : encodeBytes (a :: b :: c :: rest) =
    symbol (groupValue a b c / 0x40000) :: symbol (groupValue a b c / 0x1000 % 64)
      :: symbol (groupValue a b c / 0x40 % 64) :: symbol (groupValue a b c % 64) :: encodeBytes rest := by
  rw [encodeBytes]
  rfl

/-! ## Groups of four symbols -/

/-- Four values hold the three bytes they were cut from. -/
theorem joinGroups_four (a b c : UInt8) (vs : List Nat) :
    joinGroups (groupValue a b c / 0x40000 :: groupValue a b c / 0x1000 % 64 :: groupValue a b c / 0x40 % 64
      :: groupValue a b c % 64 :: vs) = a :: b :: c :: joinGroups vs := by
  have ha := a.toNat_lt
  have hb := b.toNat_lt
  have hc := c.toNat_lt
  have hn := groupValue_lt a b c
  have hjoin : groupValue a b c / 0x40000 * 0x40000 + groupValue a b c / 0x1000 % 64 * 0x1000
      + groupValue a b c / 0x40 % 64 * 0x40 + groupValue a b c % 64 = groupValue a b c := by omega
  have hfirst : groupValue a b c / 0x10000 = a.toNat := by simp only [groupValue]; omega
  have hsecond : groupValue a b c / 0x100 % 256 = b.toNat := by simp only [groupValue]; omega
  have hthird : groupValue a b c % 256 = c.toNat := by simp only [groupValue]; omega
  rw [joinGroups]
  simp only [hjoin, hfirst, hsecond, hthird, UInt8.ofNat_toNat]

theorem values_symbol (offset : Nat) {n : Nat} (h : n < 64) (rest : Bytes) :
    values offset (symbol n :: rest) = (values (offset + 1) rest).map (n :: ·) := by
  rw [values, value?_symbol n h]

theorem values_four (a b c : UInt8) (offset : Nat) {rest : Bytes} {vs : List Nat}
    (h : values (offset + 1 + 1 + 1 + 1) (encodeBytes rest) = .ok vs) :
    values offset (encodeBytes (a :: b :: c :: rest)) = .ok (groupValue a b c / 0x40000
      :: groupValue a b c / 0x1000 % 64 :: groupValue a b c / 0x40 % 64 :: groupValue a b c % 64 :: vs) := by
  have hn := groupValue_lt a b c
  rw [encodeBytes_three, values_symbol _ (by omega), values_symbol _ (by omega), values_symbol _ (by omega),
    values_symbol _ (by omega), h]
  rfl

/-- Bytes in whole groups. -/
inductive WholeGroups : Bytes → Prop
  | nil : WholeGroups []
  | three (a b c : UInt8) {rest : Bytes} : WholeGroups rest → WholeGroups (a :: b :: c :: rest)

theorem WholeGroups.length_encodeBytes {bs : Bytes} (h : WholeGroups bs) : (encodeBytes bs).length % 4 = 0 := by
  induction h with
  | nil => rfl
  | three a b c _ ih =>
    rw [encodeBytes_three]
    simp only [List.length_cons]
    omega

theorem values_encodeBytes {bs : Bytes} (h : WholeGroups bs) (offset : Nat) :
    ∃ vs, values offset (encodeBytes bs) = .ok vs ∧ joinGroups vs = bs := by
  induction h generalizing offset with
  | nil => exact ⟨[], rfl, rfl⟩
  | three a b c _ ih =>
    obtain ⟨vs, hvs, hjoin⟩ := ih (offset + 1 + 1 + 1 + 1)
    exact ⟨_, values_four a b c offset hvs, by rw [joinGroups_four, hjoin]⟩

/-! ## The last group -/

/-- One to three bytes. -/
inductive LastBytes : Bytes → Prop
  | one (a : UInt8) : LastBytes [a]
  | two (a b : UInt8) : LastBytes [a, b]
  | three (a b c : UInt8) : LastBytes [a, b, c]

theorem LastBytes.length_encodeBytes {bs : Bytes} (h : LastBytes bs) : (encodeBytes bs).length = 4 := by
  cases h <;> rfl

/-- Some bytes are whole groups and a last group, and so is their encoding. -/
theorem encodeBytes_split {bs : Bytes} (h : bs ≠ []) : ∃ front last, WholeGroups front ∧ LastBytes last ∧
    bs = front ++ last ∧ encodeBytes bs = encodeBytes front ++ encodeBytes last := by
  induction bs using encodeBytes.induct with
  | case1 => exact absurd rfl h
  | case2 a => exact ⟨[], [a], .nil, .one a, rfl, rfl⟩
  | case3 a b => exact ⟨[], [a, b], .nil, .two a b, rfl, rfl⟩
  | case4 a b c rest ih =>
    by_cases hrest : rest = []
    · subst hrest
      exact ⟨[], [a, b, c], .nil, .three a b c, rfl, rfl⟩
    · obtain ⟨front, last, hfront, hlast, rfl, hencode⟩ := ih hrest
      exact ⟨a :: b :: c :: front, last, .three a b c hfront, hlast, rfl, by
        rw [encodeBytes_three, hencode, encodeBytes_three]
        rfl⟩

theorem lastValues_symbol (start index : Nat) {n : Nat} (h : n < 64) (rest : Bytes) :
    lastValues start index (symbol n :: rest) = (lastValues start (index + 1) rest).map (n :: ·) := by
  rw [lastValues, if_neg (symbol_ne_pad n h), value?_symbol n h]

/-- The bytes that two to four values in the last group stand for, with no bit left over. -/
inductive LastOf : List Nat → Bytes → Prop
  | two (a b : Nat) : b % 16 = 0 → LastOf [a, b] [UInt8.ofNat (a * 4 + b / 16)]
  | three (a b c : Nat) : c % 4 = 0 →
      LastOf [a, b, c] [UInt8.ofNat (a * 4 + b / 16), UInt8.ofNat (b % 16 * 16 + c / 4)]
  | four (a b c d : Nat) (rest : List Nat) : LastOf (a :: b :: c :: d :: rest) (joinGroups (a :: b :: c :: d :: rest))

/-- What a last group is that has an answer: it ends a text of whole groups and has no bit left over. -/
theorem lastGroup_eq_ok_iff {start total : Nat} {group bs : Bytes} : lastGroup start total group = .ok bs ↔
    total % 4 = 0 ∧ ∃ vs, lastValues start 0 group = .ok vs ∧ LastOf vs bs := by
  constructor
  · intro h
    rw [lastGroup] at h
    cases hvalues : lastValues start 0 group with
    | error e =>
      rw [hvalues] at h
      cases h
    | ok vs =>
      simp only [hvalues, bind, Except.bind, pure, Except.pure] at h
      split at h
      · cases h
      · rename_i hlength
        split at h
        · cases h
        · rename_i htotal
          refine ⟨Decidable.not_not.mp htotal, vs, rfl, ?_⟩
          split at h
          · rename_i a b
            split at h <;> cases h
            rename_i hunused
            exact .two a b (Decidable.not_not.mp hunused)
          · rename_i a b c
            split at h <;> cases h
            rename_i hunused
            exact .three a b c (Decidable.not_not.mp hunused)
          · rename_i htwo hthree
            cases h
            rcases vs with _ | ⟨a, _ | ⟨b, _ | ⟨c, _ | ⟨d, vs⟩⟩⟩⟩
            · exact absurd (Nat.zero_lt_succ 1) hlength
            · exact absurd (Nat.lt_succ_self 1) hlength
            · exact absurd rfl (htwo a b)
            · exact absurd rfl (hthree a b c)
            · exact .four a b c d vs
  · rintro ⟨htotal, vs, hvalues, hbytes⟩
    cases hbytes with
    | two a b hunused => simp [lastGroup, hvalues, htotal, hunused, bind, Except.bind, pure, Except.pure]
    | three a b c hunused => simp [lastGroup, hvalues, htotal, hunused, bind, Except.bind, pure, Except.pure]
    | four a b c d rest => simp [lastGroup, hvalues, htotal, bind, Except.bind, pure, Except.pure]

/-- It holds a byte at least. -/
theorem LastOf.ne_nil {vs : List Nat} {bs : Bytes} (h : LastOf vs bs) : bs ≠ [] := by
  cases h <;> exact List.cons_ne_nil _ _

theorem lastGroup_encodeBytes {bs : Bytes} (h : LastBytes bs) (start : Nat) {total : Nat} (ht : total % 4 = 0) :
    lastGroup start total (encodeBytes bs) = .ok bs := by
  refine lastGroup_eq_ok_iff.mpr ⟨ht, ?_⟩
  cases h with
  | one a =>
    have ha := a.toNat_lt
    refine ⟨[a.toNat * 0x10000 / 0x40000, a.toNat * 0x10000 / 0x1000 % 64], ?_, ?_⟩
    · rw [encodeBytes, lastValues_symbol _ _ (by omega), lastValues_symbol _ _ (by omega)]
      rfl
    · have hfirst : a.toNat * 0x10000 / 0x40000 * 4 + a.toNat * 0x10000 / 0x1000 % 64 / 16 = a.toNat := by omega
      have hbytes := LastOf.two (a.toNat * 0x10000 / 0x40000) (a.toNat * 0x10000 / 0x1000 % 64) (by omega)
      rwa [hfirst, UInt8.ofNat_toNat] at hbytes
  | two a b =>
    have ha := a.toNat_lt
    have hb := b.toNat_lt
    generalize hn : a.toNat * 0x10000 + b.toNat * 0x100 = n
    refine ⟨[n / 0x40000, n / 0x1000 % 64, n / 0x40 % 64], ?_, ?_⟩
    · rw [encodeBytes, hn, lastValues_symbol _ _ (by omega), lastValues_symbol _ _ (by omega),
        lastValues_symbol _ _ (by omega)]
      rfl
    · have hfirst : n / 0x40000 * 4 + n / 0x1000 % 64 / 16 = a.toNat := by omega
      have hsecond : n / 0x1000 % 64 % 16 * 16 + n / 0x40 % 64 / 4 = b.toNat := by omega
      have hbytes := LastOf.three (n / 0x40000) (n / 0x1000 % 64) (n / 0x40 % 64) (by omega)
      rwa [hfirst, hsecond, UInt8.ofNat_toNat, UInt8.ofNat_toNat] at hbytes
  | three a b c =>
    have hn := groupValue_lt a b c
    refine ⟨[groupValue a b c / 0x40000, groupValue a b c / 0x1000 % 64, groupValue a b c / 0x40 % 64,
      groupValue a b c % 64], ?_, ?_⟩
    · rw [encodeBytes_three, lastValues_symbol _ _ (by omega), lastValues_symbol _ _ (by omega),
        lastValues_symbol _ _ (by omega), lastValues_symbol _ _ (by omega)]
      rfl
    · exact joinGroups_four a b c [] ▸ LastOf.four _ _ _ _ []

/-! ## Whole texts -/

theorem encodeBytes_ne_nil {bs : Bytes} (h : bs ≠ []) : encodeBytes bs ≠ [] := by
  obtain ⟨front, last, -, hlast, -, hencode⟩ := encodeBytes_split h
  rw [hencode]
  refine List.append_ne_nil_of_right_ne_nil _ (List.ne_nil_of_length_pos ?_)
  rw [hlast.length_encodeBytes]
  decide

/-- What was encoded is decoded to the same bytes. -/
theorem decode_encodeBytes (bs : Bytes) : decode (encodeBytes bs) = .ok bs := by
  by_cases hne : bs = []
  · subst hne
    rfl
  obtain ⟨front, last, hfront, hlast, rfl, hencode⟩ := encodeBytes_split hne
  have hlength : (encodeBytes (front ++ last)).length = (encodeBytes front).length + 4 := by
    rw [hencode, List.length_append, hlast.length_encodeBytes]
  have hmod : (encodeBytes (front ++ last)).length % 4 = 0 := by
    have := hfront.length_encodeBytes
    omega
  have hstart : lastStart (encodeBytes (front ++ last)).length = (encodeBytes front).length := by
    rw [lastStart, if_pos hmod]
    omega
  obtain ⟨vs, hvs, hjoin⟩ := values_encodeBytes hfront 0
  have hgroup := lastGroup_encodeBytes hlast (encodeBytes front).length hmod
  have htake : (encodeBytes (front ++ last)).take (encodeBytes front).length = encodeBytes front := by
    rw [hencode, List.take_left]
  have hdrop : (encodeBytes (front ++ last)).drop (encodeBytes front).length = encodeBytes last := by
    rw [hencode, List.drop_left]
  have htext : encodeBytes (front ++ last) ≠ [] := List.ne_nil_of_length_pos (by omega)
  generalize encodeBytes (front ++ last) = text at *
  have hpos : text.length ≠ 0 := by omega
  have hnot : ¬ text.length % 4 = 1 := by omega
  have hend : text.getLast? = some (text.getLast htext) := List.getLast?_eq_some_getLast htext
  simp [decode, hpos, hnot, hend, hstart, htake, hdrop, hvs, hgroup, hjoin, bind, Except.bind, pure, Except.pure]

/-- What a text is decoded to is that of the groups in front and that of the last one. -/
theorem of_decode {text bs : Bytes} (hne : text ≠ []) (h : decode text = .ok bs) :
    ∃ front last, values 0 (text.take (lastStart text.length)) = .ok front ∧
      lastGroup (lastStart text.length) text.length (text.drop (lastStart text.length)) = .ok last ∧
      bs = joinGroups front ++ last := by
  have hlength : text.length ≠ 0 := fun hzero => hne (List.length_eq_zero_iff.mp hzero)
  have hend : text.getLast? = some (text.getLast hne) := List.getLast?_eq_some_getLast hne
  simp only [decode, if_neg hlength, hend, bind, Except.bind, pure, Except.pure] at h
  split at h
  · cases h
  · cases hfront : values 0 (text.take (lastStart text.length)) with
    | error e => simp [hfront] at h
    | ok front =>
      cases hlast : lastGroup (lastStart text.length) text.length (text.drop (lastStart text.length)) with
      | error e => simp [hfront, hlast] at h
      | ok last =>
        simp only [hfront, hlast, Except.ok.injEq] at h
        exact ⟨front, last, rfl, rfl, h.symm⟩

/-- Only an empty text is decoded to nothing. -/
theorem eq_nil_of_decode {text : Bytes} (h : decode text = .ok []) : text = [] := by
  refine Decidable.byContradiction fun hne => ?_
  obtain ⟨front, last, -, hlast, hnil⟩ := of_decode hne h
  obtain ⟨-, vs, -, hbytes⟩ := lastGroup_eq_ok_iff.mp hlast
  exact hbytes.ne_nil (List.append_eq_nil_iff.mp hnil.symm).2

/-- Each byte stands for a character of its own. -/
def IsAscii (bs : Bytes) : Prop := ∀ b ∈ bs, b.toNat < 128

instance : DecidablePred IsAscii := fun bs => List.decidableBAll (fun b : UInt8 => b.toNat < 128) bs

theorem isAscii_append {as bs : Bytes} : IsAscii (as ++ bs) ↔ IsAscii as ∧ IsAscii bs := List.forall_mem_append

/-- A byte that stands for a character of its own which is no white space. -/
def Visible (b : UInt8) : Prop := b.toNat < 128 ∧ Text.isBlank (Char.ofNat b.toNat) = false

instance (b : UInt8) : Decidable (Visible b) := inferInstanceAs (Decidable (_ ∧ _))

/-- What holds for the symbols and for the padding, holds for all bytes of an encoding. -/
theorem forall_encodeBytes {P : UInt8 → Prop} (hsymbol : ∀ n < 64, P (symbol n)) (hpad : P pad) (bs : Bytes) :
    ∀ b ∈ encodeBytes bs, P b := by
  induction bs using encodeBytes.induct with
  | case1 => exact fun _ h => nomatch h
  | case2 a =>
    have ha := a.toNat_lt
    simp only [encodeBytes, List.forall_mem_cons]
    exact ⟨hsymbol _ (by omega), hsymbol _ (by omega), hpad, hpad, fun _ h => nomatch h⟩
  | case3 a b =>
    have ha := a.toNat_lt
    have hb := b.toNat_lt
    simp only [encodeBytes, List.forall_mem_cons]
    exact ⟨hsymbol _ (by omega), hsymbol _ (by omega), hsymbol _ (by omega), hpad, fun _ h => nomatch h⟩
  | case4 a b c rest ih =>
    have hn := groupValue_lt a b c
    rw [encodeBytes_three]
    simp only [List.forall_mem_cons]
    exact ⟨hsymbol _ (by omega), hsymbol _ (by omega), hsymbol _ (by omega), hsymbol _ (by omega), ih⟩

theorem visible_encodeBytes (bs : Bytes) : ∀ b ∈ encodeBytes bs, Visible b :=
  forall_encodeBytes (by decide) (by decide) bs

theorem utf8EncodeChar_ascii : ∀ n < 128, String.utf8EncodeChar (Char.ofNat n) = [UInt8.ofNat n] := by decide

theorem utf8_ofAscii {bs : Bytes} (h : IsAscii bs) : Text.utf8 (Text.ofAscii bs) = bs := by
  rw [Text.utf8, Text.ofAscii, String.toList_ofList]
  induction bs with
  | nil => rfl
  | cons b bs ih =>
    obtain ⟨hb, hbs⟩ := List.forall_mem_cons.mp h
    rw [List.map_cons, List.flatMap_cons, utf8EncodeChar_ascii _ hb, ih hbs, UInt8.ofNat_toNat]
    rfl

theorem utf8_encode (bs : Bytes) : Text.utf8 (encode bs) = encodeBytes bs :=
  utf8_ofAscii fun b hb => (visible_encodeBytes bs b hb).1

/-- No character of an encoding is white space. -/
theorem isBlank_encode {bs : Bytes} : ∀ c ∈ (encode bs).toList, Text.isBlank c = false := by
  intro c hc
  rw [encode, Text.ofAscii, String.toList_ofList] at hc
  obtain ⟨b, hb, rfl⟩ := List.mem_map.mp hc
  exact (visible_encodeBytes bs b hb).2

/-- Nothing is cut off of an encoding. -/
theorem trim_encode (bs : Bytes) : Text.trim (encode bs) = encode bs := Text.trim_eq_self isBlank_encode

end Base64

/-- The value of a block that holds an encoding is the bytes that were encoded. -/
theorem decodeSignatureValue_encode {bs : Bytes} (h : bs ≠ []) : decodeSignatureValue (Base64.encode bs) = .ok bs := by
  rw [decodeSignatureValue, Base64.trim_encode, Base64.utf8_encode]
  split
  · rename_i hnil
    exact absurd hnil (Base64.encodeBytes_ne_nil h)
  · rw [Base64.decode_encodeBytes]
    rfl

/-- A value that is decoded has a byte at least. -/
theorem ne_nil_of_decodeSignatureValue {text : String} {v : Bytes} (h : decodeSignatureValue text = .ok v) : v ≠ [] := by
  rintro rfl
  rw [decodeSignatureValue] at h
  split at h
  · cases h
  · rename_i bytes hbytes
    cases hdecode : Base64.decode (Text.utf8 (Text.trim text)) with
    | error e =>
      rw [hdecode] at h
      cases h
    | ok bs =>
      rw [hdecode] at h
      cases h
      exact hbytes (Base64.eq_nil_of_decode hdecode)

end PolicySeal
