import Mathlib
import PolicySeal.Proofs.Text.Blank
/-
  PolicySeal.Proofs.Text.Letters — texts that differ in the case of their letters.

  In small letters a text is the same whether its letters were raised before (`lower_upper`) and
  whether white space is cut off before or after (`lower_trim`). Two spellings of one code, in any
  case and with any white space around them, come to one text in small letters (`Alike.lower_trim`).
-/

namespace PolicySeal.Text

theorem lower_upper (s : String) : lower (upper s) = lower s := by
  rw [lower, upper, String.toList_ofList, List.map_map, lower]
  exact congrArg String.ofList (List.map_congr_left fun c _ => c.toLower_toUpper_eq_toLower)

theorem upper_lower (s : String) : upper (lower s) = upper s := by
  rw [upper, lower, String.toList_ofList, List.map_map, upper]
  exact congrArg String.ofList (List.map_congr_left fun c _ => c.toUpper_toLower_eq_toUpper)

theorem sameLetters_iff {a b : String} : sameLetters a b = true ↔ lower a = lower b := beq_iff_eq

/-- Letters are no white space in either case. -/
theorem trimChars_map_toLower (cs : List Char) : trimChars (cs.map Char.toLower) = (trimChars cs).map Char.toLower := by
  have hblank : isBlank ∘ Char.toLower = isBlank := funext isBlank_toLower
  simp only [trimChars, trimEndChars, trimStartChars, List.dropWhile_map, ← List.map_reverse, hblank]

theorem lower_trim (s : String) : lower (trim s) = trim (lower s) := by
  simp only [lower, trim, String.toList_ofList, trimChars_map_toLower]

/-- What is no letter is what it was before the letters were lowered. -/
theorem toLower_eq_iff {c d : Char} (hd : d.isAlpha = false) : c.toLower = d ↔ c = d := by
  by_cases hc : c.isAlpha = true
  · have hlower : c.toLower.isAlpha = true := c.isAlpha_toLower_eq_isAlpha.trans hc
    exact iff_of_false (fun h => by simp [h, hd] at hlower) fun h => by simp [h, hd] at hc
  · have hupper : ¬ c.isUpper = true := fun h => hc (by simp [Char.isAlpha, h])
    rw [Char.toLower_eq_of_not_isUpper hupper]

theorem map_toLower_eq_iff {cs ds : List Char} (hds : ∀ d ∈ ds, d.isAlpha = false) : cs.map Char.toLower = ds ↔ cs = ds := by
  induction ds generalizing cs with
  | nil => exact List.map_eq_nil_iff
  | cons d ds ih =>
    obtain ⟨hd, hds⟩ := List.forall_mem_cons.mp hds
    cases cs with
    | nil => exact iff_of_false nofun nofun
    | cons c cs => rw [List.map_cons, List.cons_eq_cons, List.cons_eq_cons, toLower_eq_iff hd, ih hds]

/-! ## Spellings -/

/-- The same text but for the case of its letters and the white space around it. -/
def Alike (a b : String) : Prop := ∃ core other, Wraps a core ∧ Wraps b other ∧ sameLetters core other = true

theorem Alike.lower_trim {a b : String} (h : Alike a b) : lower (trim a) = lower (trim b) := by
  obtain ⟨core, other, ha, hb, hletters⟩ := h
  rw [ha.trim_eq, hb.trim_eq, Text.lower_trim, Text.lower_trim, sameLetters_iff.mp hletters]

end PolicySeal.Text
