import PolicySeal.Config.Binding
import PolicySeal.Proofs.Text.Blank
/-
  PolicySeal.Proofs.Config.Environment — what variables say about a configuration.

  A variable counts as unset where it is blank (`value?_eq_none_iff`). A word is spelled with
  any white space around it and in any case of its letters (`Text.Spells`); cutting the white
  space off and lowering the letters finds that word and no other (`lower_trim_eq_iff`). So
  the profile is that of development exactly where the variable is unset or spells one of its
  two names (`profile_eq_development_iff`): any other spelling counts as production.
-/

namespace PolicySeal

namespace Text

/-! ## Trimmed texts -/

/-- The word, in any case of its letters, with nothing but white space around it. -/
def Spells (s word : String) : Prop :=
  ∃ before core after : List Char, s.toList = before ++ core ++ after ∧ (∀ c ∈ before, isBlank c = true) ∧
    (∀ c ∈ after, isBlank c = true) ∧ core.map Char.toLower = word.toList

/-- Where the small letters are no white space, the letters are none. -/
theorem visible_of_map_toLower {core word : List Char} (hcore : core.map Char.toLower = word)
    (hword : ∀ c ∈ word, isBlank c = false) : ∀ c ∈ core, isBlank c = false := by
  intro c hc
  rw [← isBlank_toLower]
  exact hword _ (hcore ▸ List.mem_map_of_mem hc)

theorem Spells.not_blank {s word : String} (h : Spells s word) (hword : ∀ c ∈ word.toList, isBlank c = false)
    (hne : word.toList ≠ []) : isBlankText s = false := by
  obtain ⟨before, core, after, hs, -, -, hcore⟩ := h
  cases core with
  | nil => exact absurd hcore.symm hne
  | cons c core =>
    have hc := visible_of_map_toLower hcore hword c List.mem_cons_self
    rw [isBlankText, List.all_eq_false]
    exact ⟨c, by simp [hs], by simp [hc]⟩

/-- A text comes to a word, without the white space around it and in small letters, exactly where it spells it. -/
theorem lower_trim_eq_iff {s word : String} (hword : ∀ c ∈ word.toList, isBlank c = false) :
    lower (trim s) = word ↔ Spells s word := by
  have hlower : lower (trim s) = word ↔ (trimChars s.toList).map Char.toLower = word.toList := by
    rw [lower, trim, String.toList_ofList, ← String.toList_inj, String.toList_ofList]
  rw [hlower]
  constructor
  · intro h
    obtain ⟨before, after, hs, hbefore, hafter⟩ := exists_trimChars s.toList
    exact ⟨before, _, after, hs, hbefore, hafter, h⟩
  · rintro ⟨before, core, after, hs, hbefore, hafter, hcore⟩
    have hletters := visible_of_map_toLower hcore hword
    rw [hs, trimChars_blank_append hbefore hafter, trimChars_eq_self hletters, hcore]

end Text

namespace Environment

variable {env : Environment} {name : String}

/-- The variable is not set, or holds nothing but white space. -/
def Unset (env : Environment) (name : String) : Prop := ∀ v, env name = some v → ∀ c ∈ v.toList, Text.isBlank c = true

theorem value?_eq_none_iff : env.value? name = none ↔ env.Unset name := by
  rw [value?, Option.filter_eq_none_iff]
  refine forall₂_congr fun v _ => ?_
  rw [Bool.not_eq_true, Bool.not_eq_false', Text.isBlankText, List.all_eq_true]

theorem value?_eq_some_iff {v : String} : env.value? name = some v ↔ env name = some v ∧ Text.isBlankText v = false := by
  rw [value?, Option.filter_eq_some_iff, Bool.not_eq_true']

end Environment

/-! ## The profile -/

/-- The names of development, however they are spelled. -/
def SpellsDevelopment (text : String) : Prop := Text.Spells text "development" ∨ Text.Spells text "dev"

theorem development_visible : ∀ c ∈ "development".toList, Text.isBlank c = false := by
  simp [Text.isBlank]

theorem dev_visible : ∀ c ∈ "dev".toList, Text.isBlank c = false := by
  simp [Text.isBlank]

theorem SpellsDevelopment.not_blank {text : String} (h : SpellsDevelopment text) :
    Text.isBlankText text = false := by
  rcases h with h | h
  · exact h.not_blank development_visible (by decide)
  · exact h.not_blank dev_visible (by decide)

theorem Profile.ofName?_eq_development_iff {text : String} :
    Profile.ofName? text = .ok .development ↔ SpellsDevelopment text := by
  rw [SpellsDevelopment, ← Text.lower_trim_eq_iff development_visible, ← Text.lower_trim_eq_iff dev_visible,
    Profile.ofName?]
  split <;> simp_all

namespace BindingConfig

variable {env : Environment}

/-- A node is in development exactly where its profile is left open or spells that. -/
theorem profile_eq_development_iff : (ofEnvironment env).profile = .development ↔
    env.Unset "POLICY_BINDING_PROFILE" ∨ ∃ v, env "POLICY_BINDING_PROFILE" = some v ∧ SpellsDevelopment v := by
  rw [← Environment.value?_eq_none_iff]
  have hset : (∃ v, env "POLICY_BINDING_PROFILE" = some v ∧ SpellsDevelopment v) ↔
      ∃ v, env.value? "POLICY_BINDING_PROFILE" = some v ∧ Profile.ofName? v = .ok .development := by
    simp only [Environment.value?_eq_some_iff, Profile.ofName?_eq_development_iff]
    exact exists_congr fun v => ⟨fun ⟨hv, hspells⟩ => ⟨⟨hv, hspells.not_blank⟩, hspells⟩,
      fun ⟨⟨hv, _⟩, hspells⟩ => ⟨hv, hspells⟩⟩
  rw [hset, ofEnvironment]
  cases env.value? "POLICY_BINDING_PROFILE" with
  | none => simp
  | some v => cases hname : Profile.ofName? v <;> simp [hname]

end BindingConfig

end PolicySeal
