import PolicySeal.Proofs.Base64
import PolicySeal.Proofs.Policy.Canonical
import PolicySeal.Proofs.Text.Blank
/-
  PolicySeal.Proofs.Base64.Unique — a byte string has one text.

  What is decoded was encoded: the values that symbols are read as are written as the same symbols
  (`eq_map_symbol_of_values`), four values as the three bytes they hold (`encodeBytes_joinGroups`),
  and the last group, whose unused bits are zero and whose padding fills it up, as what it holds
  (`LastOf.encodeBytes_eq`). So the texts that are decoded are the encodings (`decode_eq_ok_iff`),
  and the value of a signature block is accepted exactly where it is an encoding of some bytes with
  nothing but white space around it (`decodeSignatureValue_eq_ok_iff`, `signature_text_unique`).
-/

namespace PolicySeal

namespace Base64

/-! ## Symbols -/

/-- A byte with a value is the symbol of that value. -/
theorem symbol_of_value? {b : UInt8} {n : Nat} (h : value? b = some n) : n < 64 ∧ symbol n = b := by
  have hall : ∀ k < 256, (value? (UInt8.ofNat k)).all
      (fun n => decide (n < 64 ∧ symbol n = UInt8.ofNat k)) = true := by decide +kernel
  have hb := hall b.toNat b.toNat_lt
  rw [UInt8.ofNat_toNat, h] at hb
  exact of_decide_eq_true hb

theorem eq_map_symbol_of_values {offset : Nat} {bs : Bytes} {vs : List Nat} (h : values offset bs = .ok vs) :
    bs = vs.map symbol ∧ ∀ n ∈ vs, n < 64 := by
  induction bs generalizing offset vs with
  | nil =>
    cases h
    exact ⟨rfl, fun _ hn => nomatch hn⟩
  | cons b rest ih =>
    rw [values] at h
    split at h
    · cases h
    · rename_i n hvalue
      obtain ⟨hn, rfl⟩ := symbol_of_value? hvalue
      cases hrest : values (offset + 1) rest with
      | error e =>
        rw [hrest] at h
        cases h
      | ok ns =>
        rw [hrest] at h
        cases h
        obtain ⟨rfl, hns⟩ := ih hrest
        exact ⟨rfl, List.forall_mem_cons.mpr ⟨hn, hns⟩⟩

/-- The values of a last group are followed by padding only. -/
theorem eq_append_pad_of_lastValues {start index : Nat} {group : Bytes} {vs : List Nat}
    (h : lastValues start index group = .ok vs) :
    (∃ k, group = vs.map symbol ++ List.replicate k pad) ∧ ∀ n ∈ vs, n < 64 := by
  induction group generalizing index vs with
  | nil =>
    cases h
    exact ⟨⟨0, rfl⟩, fun _ hn => nomatch hn⟩
  | cons b rest ih =>
    rw [lastValues] at h
    split at h
    · rename_i hpad
      split at h
      · cases h
      · split at h
        · rename_i hrest
          cases h
          have hall : ∀ c ∈ rest, c = pad := fun c hc => beq_iff_eq.mp (List.all_eq_true.mp hrest c hc)
          exact ⟨⟨rest.length + 1, by rw [hpad, List.replicate_succ, ← List.eq_replicate_of_mem hall]; rfl⟩,
            fun _ hn => nomatch hn⟩
        · cases h
    · split at h
      · cases h
      · rename_i n hvalue
        obtain ⟨hn, rfl⟩ := symbol_of_value? hvalue
        cases hrest : lastValues start (index + 1) rest with
        | error e =>
          rw [hrest] at h
          cases h
        | ok ns =>
          rw [hrest] at h
          cases h
          obtain ⟨⟨k, rfl⟩, hns⟩ := ih hrest
          exact ⟨⟨k, rfl⟩, List.forall_mem_cons.mpr ⟨hn, hns⟩⟩

/-! ## Groups of four symbols -/

-- The bound in numerals, as `omega` shows it.
theorem toNat_ofNat_of_lt {n : Nat} (h : n < 256) : (UInt8.ofNat n).toNat = n := UInt8.toNat_ofNat_of_lt' h

/-- The three bytes that four values hold are encoded as the symbols of the values. -/
theorem encodeBytes_joinGroups_four {a b c d : Nat} (ha : a < 64) (hb : b < 64) (hc : c < 64) (hd : d < 64)
    (vs : List Nat) : encodeBytes (joinGroups (a :: b :: c :: d :: vs)) =
      symbol a :: symbol b :: symbol c :: symbol d :: encodeBytes (joinGroups vs) := by
  rw [joinGroups, encodeBytes_three]
  have hgroup : groupValue (UInt8.ofNat ((a * 0x40000 + b * 0x1000 + c * 0x40 + d) / 0x10000))
      (UInt8.ofNat ((a * 0x40000 + b * 0x1000 + c * 0x40 + d) / 0x100 % 256))
      (UInt8.ofNat ((a * 0x40000 + b * 0x1000 + c * 0x40 + d) % 256))
      = a * 0x40000 + b * 0x1000 + c * 0x40 + d := by
    rw [groupValue, toNat_ofNat_of_lt (by omega), toNat_ofNat_of_lt (by omega), toNat_ofNat_of_lt (by omega)]
    omega
  rw [hgroup, show (a * 0x40000 + b * 0x1000 + c * 0x40 + d) / 0x40000 = a by omega,
    show (a * 0x40000 + b * 0x1000 + c * 0x40 + d) / 0x1000 % 64 = b by omega,
    show (a * 0x40000 + b * 0x1000 + c * 0x40 + d) / 0x40 % 64 = c by omega,
    show (a * 0x40000 + b * 0x1000 + c * 0x40 + d) % 64 = d by omega]

theorem wholeGroups_joinGroups (vs : List Nat) : WholeGroups (joinGroups vs) := by
  induction vs using joinGroups.induct with
  | case1 a b c d rest ih => exact .three _ _ _ ih
  | case2 vs h =>
    rw [joinGroups.eq_2 vs h]
    exact .nil

theorem encodeBytes_joinGroups {vs : List Nat} (hlength : vs.length % 4 = 0) (h : ∀ n ∈ vs, n < 64) :
    encodeBytes (joinGroups vs) = vs.map symbol := by
  induction vs using joinGroups.induct with
  | case1 a b c d rest ih =>
    simp only [List.forall_mem_cons] at h
    obtain ⟨ha, hb, hc, hd, hvalues⟩ := h
    have hrest : rest.length % 4 = 0 := by
      simp only [List.length_cons] at hlength
      omega
    rw [encodeBytes_joinGroups_four ha hb hc hd, ih hrest hvalues]
    rfl
  | case2 vs hshort =>
    rcases vs with _ | ⟨a, _ | ⟨b, _ | ⟨c, _ | ⟨d, vs⟩⟩⟩⟩
    · rfl
    · cases hlength
    · cases hlength
    · cases hlength
    · exact absurd rfl (hshort a b c d vs)

theorem WholeGroups.encodeBytes_append {front : Bytes} (h : WholeGroups front) (last : Bytes) :
    encodeBytes (front ++ last) = encodeBytes front ++ encodeBytes last := by
  induction h with
  | nil => rfl
  | three a b c _ ih =>
    rw [encodeBytes_three, List.cons_append, List.cons_append, List.cons_append, encodeBytes_three, ih]
    rfl

/-! ## The last group -/

/-- What a last group of four bytes holds is encoded as the group. -/
theorem LastOf.encodeBytes_eq {vs : List Nat} {bs : Bytes} (h : LastOf vs bs) (hvalues : ∀ n ∈ vs, n < 64) {k : Nat}
    (hlength : vs.length + k = 4) : encodeBytes bs = vs.map symbol ++ List.replicate k pad := by
  cases h with
  | two a b hunused =>
    simp only [List.forall_mem_cons] at hvalues
    obtain ⟨ha, hb, -⟩ := hvalues
    obtain rfl : k = 2 := by simpa using by simpa [Nat.add_comm] using hlength
    rw [encodeBytes, toNat_ofNat_of_lt (by omega), show (a * 4 + b / 16) * 0x10000 / 0x40000 = a by omega,
      show (a * 4 + b / 16) * 0x10000 / 0x1000 % 64 = b by omega]
    rfl
  | three a b c hunused =>
    simp only [List.forall_mem_cons] at hvalues
    obtain ⟨ha, hb, hc, -⟩ := hvalues
    obtain rfl : k = 1 := by simpa using by simpa [Nat.add_comm] using hlength
    rw [encodeBytes, toNat_ofNat_of_lt (by omega), toNat_ofNat_of_lt (by omega),
      show ((a * 4 + b / 16) * 0x10000 + (b % 16 * 16 + c / 4) * 0x100) / 0x40000 = a by omega,
      show ((a * 4 + b / 16) * 0x10000 + (b % 16 * 16 + c / 4) * 0x100) / 0x1000 % 64 = b by omega,
      show ((a * 4 + b / 16) * 0x10000 + (b % 16 * 16 + c / 4) * 0x100) / 0x40 % 64 = c by omega]
    rfl
  | four a b c d rest =>
    obtain ⟨rfl, hrest⟩ : k = 0 ∧ rest.length = 0 := by
      simp only [List.length_cons] at hlength
      omega
    rw [encodeBytes_joinGroups (by simp [hrest]) hvalues]
    exact (List.append_nil _).symm

theorem encodeBytes_of_lastGroup {start total : Nat} {group bs : Bytes} (hgroup : group.length = 4)
    (h : lastGroup start total group = .ok bs) : encodeBytes bs = group := by
  obtain ⟨-, vs, hvs, hbytes⟩ := lastGroup_eq_ok_iff.mp h
  obtain ⟨⟨k, rfl⟩, hvalues⟩ := eq_append_pad_of_lastValues hvs
  exact hbytes.encodeBytes_eq hvalues (by simpa using hgroup)

/-! ## Whole texts -/

/-- What was decoded is encoded as the same text. -/
theorem encodeBytes_of_decode {text bs : Bytes} (h : decode text = .ok bs) : encodeBytes bs = text := by
  by_cases hne : text = []
  · subst hne
    cases h
    rfl
  obtain ⟨front, last, hfront, hlast, rfl⟩ := of_decode hne h
  obtain ⟨htotal, -⟩ := lastGroup_eq_ok_iff.mp hlast
  have hpos : 0 < text.length := List.length_pos_iff.mpr hne
  have hstart : lastStart text.length = text.length - 4 := if_pos htotal
  obtain ⟨hsymbols, hvalues⟩ := eq_map_symbol_of_values hfront
  have hcount : front.length = text.length - 4 := by
    have hlengths := congrArg List.length hsymbols
    simp only [List.length_take, List.length_map] at hlengths
    omega
  have hgroup : (text.drop (lastStart text.length)).length = 4 := by
    rw [List.length_drop]
    omega
  calc encodeBytes (joinGroups front ++ last)
      = encodeBytes (joinGroups front) ++ encodeBytes last := (wholeGroups_joinGroups front).encodeBytes_append last
    _ = front.map symbol ++ encodeBytes last := by rw [encodeBytes_joinGroups (by omega) hvalues]
    _ = text.take (lastStart text.length) ++ text.drop (lastStart text.length) := by
      rw [hsymbols, encodeBytes_of_lastGroup hgroup hlast]
    _ = text := List.take_append_drop _ _

/-- The texts that are decoded are the encodings. -/
theorem decode_eq_ok_iff {text bs : Bytes} : decode text = .ok bs ↔ text = encodeBytes bs := by
  constructor
  · exact fun h => (encodeBytes_of_decode h).symm
  · rintro rfl
    exact decode_encodeBytes bs

end Base64

/-! ## The value of a signature block -/

/-- A value is read as some bytes exactly where it is their encoding and there are some. -/
theorem decodeSignatureValue_eq_ok_iff {s : String} {bs : Bytes} :
    decodeSignatureValue s = .ok bs ↔ bs ≠ [] ∧ Text.trim s = Base64.encode bs := by
  constructor
  · intro h
    refine ⟨ne_nil_of_decodeSignatureValue h, Text.utf8_injective ?_⟩
    rw [decodeSignatureValue] at h
    split at h
    · cases h
    · cases hdecode : Base64.decode (Text.utf8 (Text.trim s)) with
      | error e =>
        rw [hdecode] at h
        cases h
      | ok read =>
        rw [hdecode] at h
        cases h
        rw [Base64.utf8_encode]
        exact Base64.decode_eq_ok_iff.mp hdecode
  · rintro ⟨hne, htrim⟩
    have hread := decodeSignatureValue_encode hne
    rw [decodeSignatureValue, Base64.trim_encode] at hread
    rw [decodeSignatureValue, htrim, hread]

/-- Up to the white space around it, a signature has one text that is read as it: the encoding of its
bytes. No other text is read. -/
theorem signature_text_unique :
    (∀ (bs : Bytes) (s : String), bs ≠ [] → Text.Wraps s (Base64.encode bs) → decodeSignatureValue s = .ok bs) ∧
    (∀ (s : String) (bs : Bytes), decodeSignatureValue s = .ok bs → bs ≠ [] ∧ Base64.encode bs = Text.trim s) ∧
    (∀ s : String, (∀ bs : Bytes, bs ≠ [] → ¬ Text.Wraps s (Base64.encode bs)) →
      ∃ e, decodeSignatureValue s = .error e) ∧
    ∀ (s t : String) (bs : Bytes), decodeSignatureValue s = .ok bs → decodeSignatureValue t = .ok bs →
      Text.trim s = Text.trim t := by
  refine ⟨fun bs s hne hwraps => ?_, fun s bs h => ?_, fun s hnone => ?_, fun s t bs hs ht => ?_⟩
  · exact decodeSignatureValue_eq_ok_iff.mpr ⟨hne, (Text.trim_eq_iff_wraps Base64.isBlank_encode).mpr hwraps⟩
  · obtain ⟨hne, htrim⟩ := decodeSignatureValue_eq_ok_iff.mp h
    exact ⟨hne, htrim.symm⟩
  · cases hread : decodeSignatureValue s with
    | error e => exact ⟨e, rfl⟩
    | ok bs =>
      obtain ⟨hne, htrim⟩ := decodeSignatureValue_eq_ok_iff.mp hread
      exact absurd ((Text.trim_eq_iff_wraps Base64.isBlank_encode).mp htrim) (hnone bs hne)
  · exact (decodeSignatureValue_eq_ok_iff.mp hs).2.trans (decodeSignatureValue_eq_ok_iff.mp ht).2.symm

/-- Three bytes, read from their text with a space in front of it and the end of a line after it. -/
theorem spacedText_read : ([0x66, 0x6F, 0x6F] : Bytes) ≠ [] ∧
    Text.Wraps " Zm9v\n" (Base64.encode [0x66, 0x6F, 0x6F]) ∧
    decodeSignatureValue " Zm9v\n" = .ok [0x66, 0x6F, 0x6F] ∧
    Base64.encode [0x66, 0x6F, 0x6F] = Text.trim " Zm9v\n" := by
  have hne : ([0x66, 0x6F, 0x6F] : Bytes) ≠ [] := by decide
  have hwraps : Text.Wraps " Zm9v\n" (Base64.encode [0x66, 0x6F, 0x6F]) :=
    ⟨[' '], ['\n'], by decide, List.forall_mem_singleton.mpr rfl, List.forall_mem_singleton.mpr rfl⟩
  obtain ⟨hread, hunique, -, -⟩ := signature_text_unique
  have hdecoded := hread [0x66, 0x6F, 0x6F] " Zm9v\n" hne hwraps
  exact ⟨hne, hwraps, hdecoded, (hunique _ _ hdecoded).2⟩

-- Neither padding that is left out nor a bit that stands for no byte is another text of `f`.
example : decodeSignatureValue "Zg==" = .ok [0x66] := by decide
example : decodeSignatureValue "Zg" = .error (.malformed .padding) := by decide
example : decodeSignatureValue "Zh==" = .error (.malformed (.lastSymbol 0x68 1)) := by decide

end PolicySeal
