import Mathlib.Data.List.Induction
import PolicySeal.Proofs.Der.Primitive
import PolicySeal.Proofs.Der.Timestamp
/-
  PolicySeal.Proofs.Der.Exact — what is read is the one encoding of what it is read as.

  Lengths, integers and times are read only as they are written, so the bytes of an element can be
  told from the element (`Element.split?_eq_some_iff`), those of a row of elements from the row
  (`Element.list?_eq_some`), and an element that holds a number, a bit string, an identifier or a
  time from that (`natural?_eq_some`, `BitString.ofElement?_eq_some`, `Oid.ofElement?_eq_some`,
  `Timestamp.ofElement?_eq_some`). Only where fields are passed over something is lost
  (`takeField_sublist`), and what is lost makes an encoding no longer (`Element.total_le_of_sublist`).
-/

namespace PolicySeal

namespace Bytes

/-- A number needs as many bytes as there are up to the first that is not zero. -/
theorem width_eq {n k : Nat} (hlow : limit k ≤ n) (hhigh : n < limit (k + 1)) : width n = k + 1 := by
  have hne : n ≠ 0 := Nat.ne_of_gt (Nat.lt_of_lt_of_le (limit_pos k) hlow)
  have hmono : ∀ {a b : Nat}, a ≤ b → limit a ≤ limit b := fun h => Nat.pow_le_pow_right (by decide) h
  have hle : ¬ width n ≤ k := fun h => by
    have hlt := lt_limit_width n
    have := hmono h
    omega
  have hge : ¬ k + 1 ≤ width n - 1 := fun h => by
    have hfirst := limit_le hne
    have := hmono h
    omega
  omega

theorem minimal_toNat {bs : Bytes} (h : width (toNat bs) = bs.length) : minimal (toNat bs) = bs := by
  rw [minimal, h, ofNat_toNat]

/-- Bytes of which the first is not zero are the least ones of their number. -/
theorem minimal_toNat_cons {b : UInt8} (h : b ≠ 0) (bs : Bytes) : minimal (toNat (b :: bs)) = b :: bs := by
  have hpos : 0 < b.toNat := Nat.pos_of_ne_zero fun hzero => h (UInt8.toNat_inj.mp hzero)
  have hlow : limit bs.length ≤ toNat (b :: bs) := by
    rw [toNat_cons]
    exact Nat.le_trans (Nat.le_mul_of_pos_left _ hpos) (Nat.le_add_right _ _)
  exact minimal_toNat (width_eq hlow (toNat_lt (b :: bs)))

end Bytes

namespace Der

/-! ## Lengths -/

/-- A length that is read is written in the one way there is. -/
theorem splitLength?_eq_some {bs rest : Bytes} {n : Nat} (h : splitLength? bs = some (n, rest)) :
    n ≤ maxLength ∧ bs = encodeLength n ++ rest := by
  cases bs with
  | nil => cases h
  | cons b bs =>
    rw [splitLength?] at h
    split at h
    · rename_i hshort
      cases h
      have hlow : b.toNat < 128 := UInt8.lt_iff_toNat_lt.mp hshort
      refine ⟨Nat.le_trans (Nat.le_of_lt hlow) (by decide), ?_⟩
      rw [encodeLength, if_pos hlow, UInt8.ofNat_toNat, List.singleton_append]
    · rename_i hlong
      obtain ⟨hfits, h⟩ := Option.ite_none_left_eq_some.mp h
      obtain ⟨rfl, rfl⟩ := Prod.mk.inj (Option.some.inj h)
      have hhigh : 128 ≤ b.toNat := Nat.le_of_not_lt fun hlow => hlong (UInt8.lt_iff_toNat_lt.mpr hlow)
      simp only [not_or, Nat.not_lt, ne_eq, Decidable.not_not] at hfits
      obtain ⟨hsome, -, hlength, hleast, hmax, hwidth⟩ := hfits
      have htake : (bs.take (b.toNat - 128)).length = b.toNat - 128 := List.length_take_of_le hlength
      have hminimal := Bytes.minimal_toNat (hwidth.trans htake.symm)
      refine ⟨hmax, ?_⟩
      rw [encodeLength, if_neg (Nat.not_lt.mpr hleast)]
      simp only [hminimal, htake, List.cons_append, List.take_append_drop, Nat.add_sub_cancel' hhigh, UInt8.ofNat_toNat]

/-- A longer length is not written shorter. -/
theorem length_encodeLength_mono {m n : Nat} (h : m ≤ n) : (encodeLength m).length ≤ (encodeLength n).length := by
  have hlog : m ≠ 0 → m.log2 ≤ n.log2 := fun hm => (Nat.le_log2 (by omega)).mpr (Nat.le_trans (Nat.log2_self_le hm) h)
  have hwidth : Bytes.width m ≤ Bytes.width n := by
    rw [Bytes.width, Bytes.width]
    split
    · exact Nat.zero_le _
    · rename_i hm
      have := hlog hm
      rw [if_neg (by omega)]
      omega
  rw [encodeLength, encodeLength]
  split <;> split <;> simp only [List.length_cons, List.length_nil, Bytes.length_minimal] <;> omega

namespace Element

/-! ## One element -/

theorem split?_eq_some_iff {bs rest : Bytes} {e : Element} : split? bs = some (e, rest) ↔ e.Fits ∧ bs = e.encode ++ rest := by
  constructor
  · intro h
    have hknown := isKnown_of_split? h
    cases bs with
    | nil => cases h
    | cons tag bs =>
      rw [split?] at h
      split at h
      · cases h
      · obtain ⟨⟨n, rest⟩, hlength, h⟩ := Option.bind_eq_some_iff.mp h
        obtain ⟨hle, h⟩ := Option.ite_none_right_eq_some.mp h
        cases h
        obtain ⟨hmax, rfl⟩ := splitLength?_eq_some hlength
        have htake : (rest.take n).length = n := List.length_take_of_le hle
        refine ⟨⟨hknown, by rwa [htake]⟩, ?_⟩
        rw [encode, htake, List.cons_append, List.append_assoc, List.take_append_drop]
  · rintro ⟨hfits, rfl⟩
    exact split?_encode hfits rest

theorem one?_eq_some_iff {bs : Bytes} {e : Element} : one? bs = some e ↔ e.Fits ∧ bs = e.encode := by
  constructor
  · intro h
    rw [one?] at h
    split at h
    · rename_i hsplit
      cases h
      obtain ⟨hfits, hbs⟩ := split?_eq_some_iff.mp hsplit
      exact ⟨hfits, hbs.trans (List.append_nil _)⟩
    · cases h
  · rintro ⟨hfits, rfl⟩
    exact one?_encode hfits

/-! ## Rows of elements -/

theorem listWithin_eq_some {fuel : Nat} {bs : Bytes} {es : List Element} (h : listWithin fuel bs = some es) :
    (∀ e ∈ es, e.Fits) ∧ bs = (es.map encode).flatten := by
  induction fuel generalizing bs es with
  | zero =>
    cases bs with
    | nil =>
      cases h
      exact ⟨fun e he => (nomatch he), rfl⟩
    | cons b bs => cases h
  | succ fuel ih =>
    by_cases hne : bs = []
    · subst hne
      cases h
      exact ⟨fun e he => (nomatch he), rfl⟩
    · rw [listWithin_succ hne] at h
      obtain ⟨⟨e, rest⟩, hsplit, h⟩ := Option.bind_eq_some_iff.mp h
      obtain ⟨more, hmore, rfl⟩ := Option.map_eq_some_iff.mp h
      obtain ⟨hfits, rfl⟩ := split?_eq_some_iff.mp hsplit
      obtain ⟨hall, hrest⟩ := ih hmore
      exact ⟨List.forall_mem_cons.mpr ⟨hfits, hall⟩, by rw [List.map_cons, List.flatten_cons, ← hrest]⟩

/-- Bytes that are read as a row of elements are their encodings one after the other. -/
theorem list?_eq_some {bs : Bytes} {es : List Element} (h : list? bs = some es) :
    (∀ e ∈ es, e.Fits) ∧ bs = (es.map encode).flatten := listWithin_eq_some h

theorem tagged?_eq_some {tag : UInt8} {e : Element} {content : Bytes} (h : e.tagged? tag = some content) :
    e = ⟨tag, content⟩ := by
  obtain ⟨htag, h⟩ := Option.ite_none_right_eq_some.mp h
  obtain ⟨tag', content'⟩ := e
  simp_all

theorem inside?_eq_some {tag : UInt8} {e : Element} {es : List Element} (h : e.inside? tag = some es) :
    e = wrap tag es ∧ ∀ x ∈ es, x.Fits := by
  obtain ⟨content, htag, hlist⟩ := Option.bind_eq_some_iff.mp h
  obtain ⟨hfits, hcontent⟩ := list?_eq_some hlist
  exact ⟨by rw [tagged?_eq_some htag, hcontent, wrap], hfits⟩

theorem explicit?_eq_some {n : Nat} {e inner : Element} (h : e.explicit? n = some inner) :
    e = wrap (Tag.explicitField n) [inner] ∧ inner.Fits := by
  rw [explicit?] at h
  split at h
  · rename_i hinside
    cases h
    obtain ⟨hwrap, hfits⟩ := inside?_eq_some hinside
    exact ⟨hwrap, hfits _ List.mem_cons_self⟩
  · cases h

/-! ## The length of rows -/

/-- How long the encodings of some elements are together. -/
def total (es : List Element) : Nat := (es.map encode).flatten.length

@[simp] theorem total_nil : total [] = 0 := rfl

@[simp] theorem total_cons (e : Element) (es : List Element) : total (e :: es) = e.encode.length + total es := by
  simp [total]

@[simp] theorem total_append (es fs : List Element) : total (es ++ fs) = total es + total fs := by simp [total]

theorem total_le_of_sublist {es fs : List Element} (h : es.Sublist fs) : total es ≤ total fs := by
  induction h with
  | slnil => exact Nat.le_refl _
  | cons e _ ih => simp only [total_cons]; omega
  | cons_cons e _ ih => simp only [total_cons]; omega

theorem total_eq_of_perm {es fs : List Element} (h : es.Perm fs) : total es = total fs :=
  (h.map encode).flatten.length_eq

theorem length_encode_mono {e f : Element} (h : e.content.length ≤ f.content.length) : e.encode.length ≤ f.encode.length := by
  have := length_encodeLength_mono h
  simp only [encode, List.length_cons, List.length_append]
  omega

/-- What holds a row that is no longer is no longer itself. -/
theorem length_wrap_le {tag : UInt8} {es fs : List Element} (h : total es ≤ total fs) :
    (wrap tag es).encode.length ≤ (wrap tag fs).encode.length := length_encode_mono h

end Element

/-! ## Numbered fields -/

/-- What is found and what is left stand in the row in this order; fields in between may have been passed over. -/
theorem takeField_sublist (n : Nat) (es : List Element) :
    ((takeField n es).1.toList ++ (takeField n es).2).Sublist es := by
  induction es with
  | nil => exact List.Sublist.refl _
  | cons e es ih =>
    rw [takeField]
    split
    · exact List.Sublist.refl _
    · split
      · exact ih.cons e
      · split <;> exact List.Sublist.refl _

/-! ## Numbers -/

theorem integerBytes?_eq_some {e : Element} {bs : Bytes} (h : integerBytes? e = some bs) :
    e = ⟨Tag.integer, bs⟩ ∧ isMinimalInteger bs = true := by
  obtain ⟨htag, hminimal⟩ := Option.filter_eq_some_iff.mp h
  exact ⟨Element.tagged?_eq_some htag, hminimal⟩

/-- Bytes without one too many, the first of them no sign, are those of their number. -/
theorem naturalBytes_toNat {b : UInt8} {bs : Bytes} (hlow : b < 0x80) (hminimal : isMinimalInteger (b :: bs) = true) :
    naturalBytes (Bytes.toNat (b :: bs)) = b :: bs := by
  by_cases hzero : b = 0
  · subst hzero
    cases bs with
    | nil => rfl
    | cons c bs =>
      have hhigh : ¬ c < 0x80 := by simpa [isMinimalInteger] using hminimal
      have hne : c ≠ 0 := by
        rintro rfl
        exact hhigh (by decide)
      have hnat : Bytes.toNat (0 :: c :: bs) = Bytes.toNat (c :: bs) := by
        rw [Bytes.toNat_cons 0]
        simp
      simp only [naturalBytes, hnat, Bytes.minimal_toNat_cons hne, if_neg hhigh]
  · simp only [naturalBytes, Bytes.minimal_toNat_cons hzero, if_pos hlow]

theorem natural?_eq_some {e : Element} {n : Nat} (h : natural? e = some n) : e = natural n := by
  obtain ⟨bs, hbs, hvalue⟩ := Option.bind_eq_some_iff.mp h
  obtain ⟨rfl, hminimal⟩ := integerBytes?_eq_some hbs
  split at hvalue
  · obtain ⟨hlow, hvalue⟩ := Option.ite_none_right_eq_some.mp hvalue
    cases hvalue
    rw [natural, naturalBytes_toNat hlow hminimal]
  · cases hvalue

theorem boolean?_eq_some {e : Element} {b : Bool} (h : boolean? e = some b) : e = boolean b := by
  rw [boolean?] at h
  split at h
  · rename_i htag
    cases h
    exact Element.tagged?_eq_some htag
  · rename_i htag
    cases h
    exact Element.tagged?_eq_some htag
  · cases h

/-! ## Bit strings -/

namespace BitString

theorem ofContent?_eq_some {content : Bytes} {b : BitString} (h : ofContent? content = some b) :
    content = b.content ∧ b.Valid := by
  cases content with
  | nil => cases h
  | cons u bytes =>
    obtain ⟨hnot, h⟩ := Option.ite_none_left_eq_some.mp h
    cases h
    obtain ⟨hunused, hsome⟩ := not_or.mp hnot
    have hseven : u.toNat ≤ 7 := Nat.le_of_not_lt fun hlt => hunused (UInt8.lt_iff_toNat_lt.mpr hlt)
    refine ⟨by rw [BitString.content, UInt8.ofNat_toNat], hseven, fun hne hnil => hsome ⟨fun hzero => ?_, hnil⟩⟩
    exact hne (by rw [hzero]; rfl)

theorem ofElement?_eq_some {e : Element} {b : BitString} (h : ofElement? e = some b) : e = b.toElement ∧ b.Valid := by
  obtain ⟨content, htag, h⟩ := Option.bind_eq_some_iff.mp h
  obtain ⟨rfl, hvalid⟩ := ofContent?_eq_some h
  exact ⟨Element.tagged?_eq_some htag, hvalid⟩

end BitString

/-! ## Identifiers -/

theorem Oid.ofElement?_eq_some {e : Element} {o : Oid} (h : ofElement? e = some o) : e = o.toElement ∧ o.Readable := by
  obtain ⟨content, htag, h⟩ := Option.bind_eq_some_iff.mp h
  have hcontent := (Option.ite_none_right_eq_some.mp h).2
  cases hcontent
  exact ⟨Element.tagged?_eq_some htag, h⟩

/-! ## Times -/

namespace Timestamp

open PolicySeal.Time

/-- Digits are told by the number that they spell. -/
theorem digits_foldl {bs : Bytes} (h : ∀ b ∈ bs, 0x30 ≤ b ∧ b ≤ 0x39) :
    digits bs.length (bs.foldl (fun n b => 10 * n + (b.toNat - 0x30)) 0) = bs := by
  induction bs using List.reverseRecOn with
  | nil => rfl
  | append_singleton bs b ih =>
    obtain ⟨hlow, hhigh⟩ := h b (by simp)
    have hlow : 48 ≤ b.toNat := UInt8.le_iff_toNat_le.mp hlow
    have hhigh : b.toNat ≤ 57 := UInt8.le_iff_toNat_le.mp hhigh
    have hrest := ih fun c hc => h c (List.mem_append_left _ hc)
    simp only [List.length_append, List.length_singleton, digits, List.foldl_append, List.foldl_cons, List.foldl_nil]
    generalize bs.foldl (fun n b => 10 * n + (b.toNat - 0x30)) 0 = value at hrest ⊢
    have hdiv : (10 * value + (b.toNat - 0x30)) / 10 = value := by omega
    have hbyte : 0x30 + (10 * value + (b.toNat - 0x30)) % 10 = b.toNat := by omega
    rw [hdiv, hbyte, hrest, UInt8.ofNat_toNat]

/-- Digits that spell a number are those that it is written with. -/
theorem digits_of_digits? {bs : Bytes} {n : Nat} (h : digits? bs = some n) : digits bs.length n = bs := by
  obtain ⟨hall, h⟩ := Option.ite_none_right_eq_some.mp h
  cases h
  simp only [List.all_eq_true, Bool.and_eq_true, decide_eq_true_iff] at hall
  exact digits_foldl hall

/-- Some digits spell a number with no more digits. -/
theorem digits?_lt {bs : Bytes} {n : Nat} (h : digits? bs = some n) : n < Nat.pow 10 bs.length := by
  have hdigits := digits_of_digits? h
  obtain ⟨-, h⟩ := Option.ite_none_right_eq_some.mp h
  have hmod : n % Nat.pow 10 bs.length = n := by rw [← foldl_digits, hdigits, Option.some.inj h]
  exact hmod ▸ Nat.mod_lt n (Nat.pow_pos (by decide))

theorem digits_two_of_digits? {a b : UInt8} {n : Nat} (h : digits? [a, b] = some n) : [a, b] = digits 2 n ∧ n < 100 :=
  ⟨(digits_of_digits? h).symm, digits?_lt h⟩

/-- What is read after the year are two digits for each field, and `Z`. -/
theorem afterYear?_eq_some {year s : Nat} {bs : Bytes} (h : afterYear? year bs = some s) :
    ∃ month day hour minute second, bs = digits 2 month ++ digits 2 day ++ digits 2 hour ++ digits 2 minute
      ++ digits 2 second ++ [0x5A] ∧ seconds? year month day hour minute second = some s := by
  obtain ⟨hform, h⟩ := Option.ite_none_left_eq_some.mp h
  simp only [ne_eq, not_or, Decidable.not_not] at hform
  obtain ⟨hlength, hlast⟩ := hform
  obtain ⟨a, b, c, d, e, f, g, i, j, k, z, rfl⟩ : ∃ a b c d e f g i j k z, bs = [a, b, c, d, e, f, g, i, j, k, z] := by
    match bs, hlength with
    | [a, b, c, d, e, f, g, i, j, k, z], _ => exact ⟨a, b, c, d, e, f, g, i, j, k, z, rfl⟩
  obtain rfl : z = 0x5A := by simpa using hlast
  simp only [Option.bind_eq_bind, Option.bind_eq_some_iff] at h
  obtain ⟨month, hmonth, day, hday, hour, hhour, minute, hminute, second, hsecond, h⟩ := h
  refine ⟨month, day, hour, minute, second, ?_, h⟩
  rw [← (digits_two_of_digits? hmonth).1, ← (digits_two_of_digits? hday).1, ← (digits_two_of_digits? hhour).1,
    ← (digits_two_of_digits? hminute).1, ← (digits_two_of_digits? hsecond).1]
  rfl

/-- The clock at a time that was read shows the fields that it was read from. -/
theorem reading_of_seconds? {year month day hour minute second s : Nat}
    (h : seconds? year month day hour minute second = some s) :
    (Instant.ofSeconds s).reading = ⟨⟨year, month, day⟩, hour, minute, second, 0⟩ := by
  simp only [seconds?] at h
  obtain ⟨hnot, h⟩ := Option.ite_none_left_eq_some.mp h
  simp only [not_or, Nat.not_lt, Bool.not_eq_true', Bool.not_eq_false] at hnot
  obtain ⟨hyear, hvalid, hhour, hminute, hsecond⟩ := hnot
  have hday : 0 ≤ Date.dayNumber ⟨year, month, day⟩ := Date.dayNumber_nonneg (Int.ofNat_le.mpr hyear)
  have hinstant : Instant.ofSeconds s = Reading.instant ⟨⟨year, month, day⟩, hour, minute, second, 0⟩ := by
    rw [← Option.some.inj h]
    simp only [Instant.ofSeconds, Reading.instant]
    congr 1
    omega
  rw [hinstant, reading_instant hvalid hhour hminute hsecond (show 0 < 1000000000 by decide) rfl]

/-- The digits of the year are as many as are asked for, where what is read after them is a time. -/
theorem take_of_afterYear? {width year n s : Nat} {content : Bytes} (hdigits : digits? (content.take width) = some n)
    (hafter : afterYear? year (content.drop width) = some s) : content.take width = digits width n := by
  have hlength : (content.drop width).length = 11 := Decidable.not_not.mp
    (not_or.mp (Option.ite_none_left_eq_some.mp hafter).1).1
  rw [List.length_drop] at hlength
  have htake : (content.take width).length = width := List.length_take_of_le (by omega)
  rw [← digits_of_digits? hdigits, htake]

/-- A time with the digits of its year in front is the encoding of what it is read as. -/
theorem eq_content (form : TimeForm) {width year n s : Nat} {content : Bytes}
    (hdigits : digits? (content.take width) = some n) (hafter : afterYear? year (content.drop width) = some s)
    (hyear : yearDigits form year = digits width n) :
    content = (mk form s).content ∧ (mk form s).instant.reading.date.year = year := by
  obtain ⟨month, day, hour, minute, second, hdrop, hseconds⟩ := afterYear?_eq_some hafter
  have hreading : (mk form s).instant.reading = ⟨⟨year, month, day⟩, hour, minute, second, 0⟩ :=
    reading_of_seconds? hseconds
  refine ⟨?_, by rw [hreading]⟩
  rw [← List.take_append_drop width content, take_of_afterYear? hdigits hafter, hdrop, content_eq, contentAfterYear, hreading,
    Int.toNat_natCast, hyear]

theorem century_mod_of_lt {yy : Nat} (h : yy < 100) : century yy % 100 = yy ∧ century yy < 2050 := by
  rw [century]
  split <;> omega

/-- What is read as a time is its encoding, and its form can hold the year. -/
theorem ofElement?_eq_some {e : Element} {t : Timestamp} (h : ofElement? e = some t) : e = t.toElement ∧ t.Valid := by
  obtain ⟨tag, content⟩ := e
  by_cases hutc : tag = Tag.utcTime
  · subst hutc
    rw [ofElement?_utc rfl] at h
    obtain ⟨yy, hyy, h⟩ := Option.bind_eq_some_iff.mp h
    obtain ⟨s, hs, rfl⟩ := Option.map_eq_some_iff.mp h
    have hless : yy < 100 := Nat.lt_of_lt_of_le (digits?_lt hyy)
      (Nat.pow_le_pow_right (by decide) (List.length_take_le 2 content))
    obtain ⟨hmod, hcentury⟩ := century_mod_of_lt hless
    obtain ⟨hcontent, hyear⟩ := eq_content .utc hyy hs (by rw [yearDigits, hmod])
    refine ⟨congrArg (Element.mk Tag.utcTime) hcontent, ?_, fun _ => ?_⟩
    · rw [hyear, lastYear]
      omega
    · rw [hyear, firstGeneralizedYear]
      omega
  · by_cases hgeneralized : tag = Tag.generalizedTime
    · subst hgeneralized
      rw [ofElement?_generalized rfl] at h
      obtain ⟨year, hdigits, h⟩ := Option.bind_eq_some_iff.mp h
      obtain ⟨s, hs, rfl⟩ := Option.map_eq_some_iff.mp h
      have hless : year < 10000 := Nat.lt_of_lt_of_le (digits?_lt hdigits)
        (Nat.pow_le_pow_right (by decide) (List.length_take_le 4 content))
      obtain ⟨hcontent, hyear⟩ := eq_content .generalized hdigits hs rfl
      refine ⟨congrArg (Element.mk Tag.generalizedTime) hcontent, ?_, fun hform => by cases hform⟩
      rw [hyear, lastYear]
      omega
    · rw [ofElement?, if_neg hutc, if_neg hgeneralized] at h
      cases h

end Timestamp

end Der

end PolicySeal
