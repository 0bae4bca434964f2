import PolicySeal.Text.Blank
/-
  PolicySeal.Proofs.Text.Blank — texts with white space around them.

  A text is white space, what trimming leaves, and white space again (`exists_trimChars`), and
  white space that is put around a text changes nothing of what is left (`trimChars_blank_append`).
  So what is left is a text without white space exactly where it stands in the other with nothing
  but white space around it (`trim_eq_iff_wraps`).
-/

namespace PolicySeal.Text

theorem isBlank_visible {c : Char} (h : 0x21 ≤ c.toNat ∧ c.toNat ≤ 0x7E) : isBlank c = false := by
  simp [isBlank]
  omega

theorem isBlank_toLower (c : Char) : isBlank c.toLower = isBlank c := by
  by_cases h : c.val ≥ 'A'.val ∧ c.val ≤ 'Z'.val
  · -- Neither a capital letter nor the small one is white space.
    have hcapital : 65 ≤ c.toNat ∧ c.toNat ≤ 90 := by simpa [UInt32.le_iff_toNat_le] using h
    have hsmall : c.toLower.toNat = c.toNat + 32 := by
      have hlower : c.toLower.val = c.val + 32 := congrArg Char.val (show c.toLower = _ from dif_pos h)
      rw [Char.toNat, hlower, UInt32.toNat_add]
      exact Nat.mod_eq_of_lt (by simpa using by omega)
    rw [isBlank_visible ⟨by omega, by omega⟩, isBlank_visible ⟨by omega, by omega⟩]
  · exact congrArg isBlank (show c.toLower = c from dif_neg h)

/-- White space, what is left of the text without it, and white space again. -/
theorem exists_trimChars (cs : List Char) : ∃ before after, cs = before ++ trimChars cs ++ after ∧
    (∀ c ∈ before, isBlank c = true) ∧ ∀ c ∈ after, isBlank c = true := by
  refine ⟨cs.takeWhile isBlank, ((trimStartChars cs).reverse.takeWhile isBlank).reverse, ?_, fun c hc => ?_, fun c hc => ?_⟩
  · have hend : trimChars cs ++ ((trimStartChars cs).reverse.takeWhile isBlank).reverse = trimStartChars cs := by
      rw [trimChars, trimEndChars, ← List.reverse_append, List.takeWhile_append_dropWhile, List.reverse_reverse]
    rw [List.append_assoc, hend, trimStartChars, List.takeWhile_append_dropWhile]
  · exact (List.all_eq_true.mp List.all_takeWhile) c hc
  · exact (List.all_eq_true.mp List.all_takeWhile) c (List.mem_reverse.mp hc)

theorem trimEndChars_append {cs blanks : List Char} (hblanks : ∀ c ∈ blanks, isBlank c = true) :
    trimEndChars (cs ++ blanks) = trimEndChars cs := by
  have hreversed : ∀ c ∈ blanks.reverse, isBlank c = true := fun c hc => hblanks c (List.mem_reverse.mp hc)
  rw [trimEndChars, trimEndChars, List.reverse_append, List.dropWhile_append_of_pos hreversed]

theorem trimEndChars_concat {cs : List Char} {c : Char} (h : isBlank c = false) : trimEndChars (cs ++ [c]) = cs ++ [c] := by
  rw [trimEndChars, List.reverse_append, List.reverse_singleton, List.singleton_append,
    List.dropWhile_cons_of_neg (by simp [h]), List.reverse_cons, List.reverse_reverse]

/-- White space around a text is cut off, and what there is of it inside at the ends as before. -/
theorem trimChars_blank_append {before core after : List Char} (hbefore : ∀ c ∈ before, isBlank c = true)
    (hafter : ∀ c ∈ after, isBlank c = true) : trimChars (before ++ core ++ after) = trimChars core := by
  have hstart : trimStartChars (before ++ core ++ after)
      = if (trimStartChars core).isEmpty then trimStartChars after else trimStartChars core ++ after := by
    rw [trimStartChars, List.append_assoc, List.dropWhile_append_of_pos hbefore, List.dropWhile_append]
    rfl
  rw [trimChars, trimChars, hstart]
  by_cases hcore : trimStartChars core = []
  · have hgone : trimStartChars after = [] := by
      rw [← List.append_nil after, trimStartChars, List.dropWhile_append_of_pos hafter, List.dropWhile_nil]
    simp [hcore, hgone]
  · rw [if_neg (by simpa using hcore), trimEndChars_append hafter]

/-! ## Texts without white space -/

theorem dropWhile_isBlank {cs : List Char} (h : ∀ c ∈ cs, isBlank c = false) : cs.dropWhile isBlank = cs := by
  cases cs with
  | nil => rfl
  | cons c cs => rw [List.dropWhile_cons_of_neg (by simp [h c List.mem_cons_self])]

/-- Of a text without white space nothing is cut off. -/
theorem trimChars_eq_self {cs : List Char} (h : ∀ c ∈ cs, isBlank c = false) : trimChars cs = cs := by
  rw [trimChars, trimStartChars, dropWhile_isBlank h, trimEndChars,
    dropWhile_isBlank fun c hc => h c (List.mem_reverse.mp hc), List.reverse_reverse]

theorem trim_eq_self {s : String} (h : ∀ c ∈ s.toList, isBlank c = false) : trim s = s := by
  rw [trim, trimChars_eq_self h, String.ofList_toList]

/-- A text with nothing but white space around it. -/
def Wraps (s core : String) : Prop :=
  ∃ before after : List Char, s.toList = before ++ core.toList ++ after ∧ (∀ c ∈ before, isBlank c = true) ∧
    ∀ c ∈ after, isBlank c = true

theorem wraps_trim (s : String) : Wraps s (trim s) := by
  obtain ⟨before, after, hs, hbefore, hafter⟩ := exists_trimChars s.toList
  exact ⟨before, after, by rw [trim, String.toList_ofList, ← hs], hbefore, hafter⟩

/-- What is left of a text is what is left of the text inside. -/
theorem Wraps.trim_eq {s core : String} (h : Wraps s core) : trim s = trim core := by
  obtain ⟨before, after, hs, hbefore, hafter⟩ := h
  rw [trim, trim, hs, trimChars_blank_append hbefore hafter]

theorem trim_trim (s : String) : trim (trim s) = trim s := (wraps_trim s).trim_eq.symm

/-- Of white space nothing is left, and only of white space. -/
theorem isBlankText_iff {s : String} : isBlankText s = true ↔ trim s = "" := by
  rw [isBlankText, List.all_eq_true]
  constructor
  · intro h
    have hwraps : Wraps s "" := ⟨s.toList, [], by simp, h, nofun⟩
    exact hwraps.trim_eq
  · intro h
    obtain ⟨before, after, hs, hbefore, hafter⟩ := wraps_trim s
    rw [h, String.toList_empty, List.append_nil] at hs
    rw [hs]
    exact List.forall_mem_append.mpr ⟨hbefore, hafter⟩

theorem trim_eq_iff_wraps {s core : String} (hcore : ∀ c ∈ core.toList, isBlank c = false) :
    trim s = core ↔ Wraps s core := by
  have hchars : trim s = core ↔ trimChars s.toList = core.toList := by
    rw [trim, ← String.toList_inj, String.toList_ofList]
  rw [hchars]
  constructor
  · intro h
    obtain ⟨before, after, hs, hbefore, hafter⟩ := exists_trimChars s.toList
    exact ⟨before, after, h ▸ hs, hbefore, hafter⟩
  · rintro ⟨before, after, hs, hbefore, hafter⟩
    rw [hs, trimChars_blank_append hbefore hafter, trimChars_eq_self hcore]

end PolicySeal.Text
