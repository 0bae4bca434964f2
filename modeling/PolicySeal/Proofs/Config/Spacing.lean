import PolicySeal.Proofs.Config.Environment
/-
  PolicySeal.Proofs.Config.Spacing — white space around the values of variables.

  Two environments are the same but for white space where each variable has the same value in both,
  or is blank or unset in both, or, if it holds neither a path nor a secret, has values that differ
  in the white space around them (`Environment.SameButBlanks`). Most settings are read without that
  white space and so are the same. Two are not: a hash is not recognised with white space around its
  name, nor is the word that switches the check of the chain off. So two such environments describe
  the same configuration exactly where neither of these is spaced in one and bare in the other
  (`ofEnvironment_eq_iff`), and otherwise they do not (`spaced_values_missed`).
-/

namespace PolicySeal

namespace Environment

variable {env env' : Environment} {name : String}

/-- The variables that hold neither a path nor a secret. -/
def scalars : List String :=
  ["INSTANCE_CODE", "PKI_HUB_INSTANCE_CODE", "PKI_CERTIFICATE_CACHE_TTL_MS", "PKI_CLOCK_SKEW_TOLERANCE_MS",
    "POLICY_SIGNATURE_ALGORITHM", "POLICY_SIGNATURE_VERIFY_CHAIN", "POLICY_BINDING_PROFILE", "POLICY_VERIFY_CONCURRENCY"]

/-- What a variable may differ in: whether it is blank or unset, and a scalar in the white space around its value. -/
inductive SameAt (env env' : Environment) (name : String) : Prop
  | unset : env.Unset name → env'.Unset name → SameAt env env' name
  | equal : env name = env' name → SameAt env env' name
  | spaced (v v' core : String) : name ∈ scalars → env name = some v → env' name = some v' → Text.Wraps v core →
      Text.Wraps v' core → SameAt env env' name

/-- The same variables but for white space. -/
def SameButBlanks (env env' : Environment) : Prop := ∀ name, SameAt env env' name

theorem value?_of_equal (h : env name = env' name) : env.value? name = env'.value? name := by rw [value?, value?, h]

theorem value?_of_unset (h : env.Unset name) (h' : env'.Unset name) : env.value? name = env'.value? name := by
  rw [value?_eq_none_iff.mpr h, value?_eq_none_iff.mpr h']

/-- Paths and secrets are read as they stand. -/
theorem SameAt.value?_eq (h : SameAt env env' name) (hname : name ∉ scalars) : env.value? name = env'.value? name := by
  cases h with
  | unset h h' => exact value?_of_unset h h'
  | equal h => exact value?_of_equal h
  | spaced v v' core hscalar => exact absurd hscalar hname

/-- Without the white space around them the values are the same. -/
theorem SameAt.map_trim (h : SameAt env env' name) : (env.value? name).map Text.trim = (env'.value? name).map Text.trim := by
  cases h with
  | unset h h' => rw [value?_of_unset h h']
  | equal h => rw [value?_of_equal h]
  | spaced v v' core _ hv hv' hcore hcore' =>
    have htrim : Text.trim v = Text.trim v' := hcore.trim_eq.trans hcore'.trim_eq.symm
    have hblank : Text.isBlankText v = Text.isBlankText v' := by
      rw [Bool.eq_iff_iff, Text.isBlankText_iff, Text.isBlankText_iff, htrim]
    rw [value?, value?, hv, hv', Option.filter_some, Option.filter_some, hblank]
    split
    · exact congrArg some htrim
    · rfl

theorem numberOr_eq (env : Environment) (name : String) (otherwise : Nat) :
    env.numberOr name otherwise = (((env.value? name).map Text.trim).bind number?).getD otherwise := by
  rw [numberOr, Option.bind_map]
  rfl

theorem SameAt.numberOr_eq (h : SameAt env env' name) (otherwise : Nat) :
    env.numberOr name otherwise = env'.numberOr name otherwise := by
  rw [Environment.numberOr_eq, Environment.numberOr_eq, h.map_trim]

/-! ## Values that have to stand bare -/

/-- The variable holds a text with a property, and no white space around it. -/
def HoldsBare (env : Environment) (name : String) (chosen : String → Prop) : Prop :=
  ∃ v, env name = some v ∧ Text.trim v = v ∧ chosen v

/-- Where the value comes to a text with the property, there is white space around it in both or in neither. -/
def SpacedAlike (env env' : Environment) (name : String) (chosen : String → Prop) : Prop :=
  ∀ v v', env name = some v → env' name = some v' → chosen (Text.trim v) → (Text.trim v = v ↔ Text.trim v' = v')

variable {chosen : String → Prop}

theorem Unset.trim_eq (h : env.Unset name) {v : String} (hv : env name = some v) : Text.trim v = "" :=
  Text.isBlankText_iff.mp (List.all_eq_true.mpr (h v hv))

theorem Unset.not_holdsBare (h : env.Unset name) (hempty : ¬ chosen "") : ¬ env.HoldsBare name chosen := by
  rintro ⟨v, hv, hbare, hchosen⟩
  exact hempty (h.trim_eq hv ▸ hbare.symm ▸ hchosen)

theorem SameAt.holdsBare_iff (h : SameAt env env' name) (hempty : ¬ chosen "") :
    (env.HoldsBare name chosen ↔ env'.HoldsBare name chosen) ↔ SpacedAlike env env' name chosen := by
  cases h with
  | unset h h' =>
    refine iff_of_true (iff_of_false (h.not_holdsBare hempty) (h'.not_holdsBare hempty)) fun v v' hv hv' hchosen => ?_
    exact absurd (h.trim_eq hv ▸ hchosen) hempty
  | equal h =>
    refine iff_of_true (by rw [HoldsBare, HoldsBare, h]) fun v v' hv hv' _ => ?_
    rw [Option.some.inj (hv.symm.trans (h.trans hv'))]
  | spaced v v' core _ hv hv' hcore hcore' =>
    have htrim : Text.trim v = Text.trim v' := hcore.trim_eq.trans hcore'.trim_eq.symm
    have hholds : ∀ (e : Environment) (w : String), e name = some w →
        (e.HoldsBare name chosen ↔ Text.trim w = w ∧ chosen (Text.trim w)) := by
      intro e w hw
      rw [HoldsBare]
      constructor
      · rintro ⟨u, hu, hbare, hchosen⟩
        obtain rfl := Option.some.inj (hw.symm.trans hu)
        exact ⟨hbare, hbare.symm ▸ hchosen⟩
      · rintro ⟨hbare, hchosen⟩
        exact ⟨w, hw, hbare, hbare ▸ hchosen⟩
    have halike : SpacedAlike env env' name chosen ↔ (chosen (Text.trim v) → (Text.trim v = v ↔ Text.trim v' = v')) := by
      constructor
      · intro h
        exact h v v' hv hv'
      · intro h u u' hu hu'
        obtain rfl := Option.some.inj (hv.symm.trans hu)
        obtain rfl := Option.some.inj (hv'.symm.trans hu')
        exact h
    rw [hholds env v hv, hholds env' v' hv', halike, ← htrim]
    exact and_congr_left_iff

/-- A property of texts that are not empty and have no white space in them. -/
def OfVisible (chosen : String → Prop) : Prop := ∀ v, chosen v → v ≠ "" ∧ ∀ c ∈ v.toList, Text.isBlank c = false

theorem OfVisible.not_empty (h : OfVisible chosen) : ¬ chosen "" := fun hchosen => (h "" hchosen).1 rfl

/-- A text with such a property is found exactly where it stands bare. -/
theorem OfVisible.exists_value?_iff (h : OfVisible chosen) :
    (∃ v, env.value? name = some v ∧ chosen v) ↔ env.HoldsBare name chosen := by
  refine exists_congr fun v => ?_
  rw [value?_eq_some_iff]
  constructor
  · rintro ⟨⟨hv, -⟩, hchosen⟩
    exact ⟨hv, Text.trim_eq_self (h v hchosen).2, hchosen⟩
  · rintro ⟨hv, hbare, hchosen⟩
    have hblank : ¬ Text.isBlankText v = true := by
      rw [Text.isBlankText_iff, hbare]
      exact (h v hchosen).1
    exact ⟨⟨hv, Bool.not_eq_true _ ▸ hblank⟩, hchosen⟩

end Environment

/-! ## The name of a hash and the check of the chain -/

/-- A name that is recognised has no white space in it: hyphens and letters are all there is. -/
theorem Hash.ofName?_visible {name : String} {h : Hash} (hname : Hash.ofName? name = .ok h) :
    name ≠ "" ∧ ∀ c ∈ name.toList, Text.isBlank c = false := by
  have hword : ∃ word ∈ ["sha384", "sha512"],
      String.ofList ((name.toList.map Char.toLower).filter (· != '-')) = word := by
    rw [ofName?] at hname
    split at hname
    · exact ⟨"sha384", by simp, by assumption⟩
    · exact ⟨"sha512", by simp, by assumption⟩
    · cases hname
  obtain ⟨word, hmem, hword⟩ := hword
  have hletters : (name.toList.map Char.toLower).filter (· != '-') = word.toList := by rw [← hword, String.toList_ofList]
  have hvisible : word.toList ≠ [] ∧ ∀ c ∈ word.toList, Text.isBlank c = false := by
    simp only [List.mem_cons, List.not_mem_nil, or_false] at hmem
    rcases hmem with rfl | rfl <;> simp [Text.isBlank]
  refine ⟨?_, fun c hc => ?_⟩
  · rintro rfl
    exact hvisible.1 (hletters ▸ rfl)
  · rw [← Text.isBlank_toLower]
    by_cases hhyphen : c.toLower = '-'
    · rw [hhyphen]
      rfl
    · refine hvisible.2 _ (hletters ▸ List.mem_filter.mpr ⟨List.mem_map_of_mem hc, ?_⟩)
      exact bne_iff_ne.mpr hhyphen

theorem ofVisible_ofName? (h : Hash) : Environment.OfVisible (Hash.ofName? · = .ok h) := fun _ => Hash.ofName?_visible

/-- The words that switch the check of the chain off. -/
def SwitchesOff (text : String) : Prop := text = "0" ∨ Text.sameLetters text "false" = true

theorem ofVisible_switchesOff : Environment.OfVisible SwitchesOff := by
  intro v hv
  have hfalse : ∀ c ∈ "false".toList, Text.isBlank c = false := by simp [Text.isBlank]
  rcases hv with rfl | hletters
  · simp [Text.isBlank]
  · have hlower : v.toList.map Char.toLower = "false".toList := by
      have := congrArg String.toList (beq_iff_eq.mp hletters)
      rwa [Text.lower, String.toList_ofList] at this
    refine ⟨?_, Text.visible_of_map_toLower hlower hfalse⟩
    rintro rfl
    cases hlower

namespace BindingConfig

variable {env env' : Environment}

theorem defaultHash_eq_sha512_iff : (ofEnvironment env).defaultHash = .sha512 ↔
    env.HoldsBare "POLICY_SIGNATURE_ALGORITHM" (Hash.ofName? · = .ok .sha512) := by
  rw [← (ofVisible_ofName? .sha512).exists_value?_iff, ofEnvironment]
  cases env.value? "POLICY_SIGNATURE_ALGORITHM" with
  | none => simp
  | some v => cases hname : Hash.ofName? v <;> simp [hname]

theorem verifyChain_eq_false_iff : (ofEnvironment env).verifyChain = false ↔
    env.HoldsBare "POLICY_SIGNATURE_VERIFY_CHAIN" SwitchesOff := by
  rw [← ofVisible_switchesOff.exists_value?_iff, ofEnvironment]
  cases env.value? "POLICY_SIGNATURE_VERIFY_CHAIN" with
  | none => simp
  | some v => simp [SwitchesOff, Decidable.or_iff_not_imp_left]

/-- The settings that are read without the white space around them, and those that are read as they stand. -/
theorem ofEnvironment_others (h : env.SameButBlanks env') (hash : Hash) (check : Bool) :
    { ofEnvironment env with defaultHash := hash, verifyChain := check }
      = { ofEnvironment env' with defaultHash := hash, verifyChain := check } := by
  have hprofile : ∀ e : Environment, (e.value? "POLICY_BINDING_PROFILE").map Profile.ofName?
      = ((e.value? "POLICY_BINDING_PROFILE").map Text.trim).map Profile.ofName? := by
    intro e
    rw [Option.map_map]
    exact Option.map_congr fun v _ => by rw [Function.comp_apply, Profile.ofName?, Profile.ofName?, Text.trim_trim]
  have hbare : ∀ name ∉ Environment.scalars, env.value? name = env'.value? name := fun name => (h name).value?_eq
  simp (disch := decide) only [ofEnvironment, hprofile, (h _).map_trim, (h _).numberOr_eq, hbare]

end BindingConfig

theorem TrustConfig.ofEnvironment_congr {env env' : Environment} (h : env.SameButBlanks env') :
    TrustConfig.ofEnvironment env = TrustConfig.ofEnvironment env' := by
  have hbare : ∀ name ∉ Environment.scalars, env.value? name = env'.value? name := fun name => (h name).value?_eq
  simp (disch := decide) only [ofEnvironment, (h _).map_trim, (h _).numberOr_eq, hbare]

namespace Environment

/-- In two environments that are the same but for white space, all settings are the same but for two: the hash of new
signatures, which SHA-512 is chosen as by its bare name alone, and whether the chain is checked, which is switched off by
a bare word alone. So the configurations are the same exactly where such a name and such a word, if they are in the values,
have white space around them in both environments or in neither. -/
theorem ofEnvironment_eq_iff (env env' : Environment) (h : env.SameButBlanks env') :
    TrustConfig.ofEnvironment env = TrustConfig.ofEnvironment env' ∧
    (∀ hash check, { BindingConfig.ofEnvironment env with defaultHash := hash, verifyChain := check }
      = { BindingConfig.ofEnvironment env' with defaultHash := hash, verifyChain := check }) ∧
    (BindingConfig.ofEnvironment env = BindingConfig.ofEnvironment env' ↔
      env.SpacedAlike env' "POLICY_SIGNATURE_ALGORITHM" (Hash.ofName? · = .ok .sha512) ∧
      env.SpacedAlike env' "POLICY_SIGNATURE_VERIFY_CHAIN" SwitchesOff) := by
  have hothers := BindingConfig.ofEnvironment_others h
  refine ⟨TrustConfig.ofEnvironment_congr h, hothers, ?_⟩
  rw [← (h _).holdsBare_iff (ofVisible_ofName? .sha512).not_empty, ← (h _).holdsBare_iff ofVisible_switchesOff.not_empty,
    ← BindingConfig.defaultHash_eq_sha512_iff, ← BindingConfig.defaultHash_eq_sha512_iff,
    ← BindingConfig.verifyChain_eq_false_iff, ← BindingConfig.verifyChain_eq_false_iff]
  generalize BindingConfig.ofEnvironment env = b at hothers ⊢
  generalize BindingConfig.ofEnvironment env' = b' at hothers ⊢
  constructor
  · rintro rfl
    exact ⟨Iff.rfl, Iff.rfl⟩
  · rintro ⟨hhash, hchain⟩
    have hhashes : b.defaultHash = b'.defaultHash := by
      cases hb : b.defaultHash <;> cases hb' : b'.defaultHash <;> simp_all
    have hchains : b.verifyChain = b'.verifyChain := by
      cases hb : b.verifyChain <;> cases hb' : b'.verifyChain <;> simp_all
    calc b = { b with defaultHash := b.defaultHash, verifyChain := b.verifyChain } := rfl
      _ = { b' with defaultHash := b.defaultHash, verifyChain := b.verifyChain } := hothers _ _
      _ = b' := by rw [hhashes, hchains]

/-- A blank before every value of a scalar, and blank what is unset. -/
def spaced (env : Environment) : Environment := fun name =>
  if name ∈ scalars then some (" " ++ (env name).getD "") else some ((env name).getD " ")

theorem sameButBlanks_spaced (env : Environment) : env.SameButBlanks env.spaced := by
  intro name
  cases hv : env name with
  | none =>
    have hblank : env.spaced name = some " " := by
      rw [spaced, hv]
      split <;> rfl
    refine .unset (fun v h => by cases hv.symm.trans h) fun v h => ?_
    obtain rfl := Option.some.inj (hblank.symm.trans h)
    simp [Text.isBlank]
  | some v =>
    by_cases hname : name ∈ scalars
    · have hspaced : env.spaced name = some (" " ++ v) := by rw [spaced, if_pos hname, hv, Option.getD_some]
      refine .spaced v (" " ++ v) v hname hv hspaced ⟨[], [], by simp, by simp, by simp⟩ ⟨[' '], [], ?_, ?_, by simp⟩
      · rw [String.toList_append, List.append_nil]
        rfl
      · simp [Text.isBlank]
    · exact .equal (by rw [spaced, if_neg hname, hv, Option.getD_some])

/-- A spoke in development that signs with SHA-384. -/
def plainVariables : Environment :=
  ofList [("INSTANCE_CODE", "fra"), ("POLICY_BINDING_PROFILE", "dev"), ("POLICY_SIGNATURE_ALGORITHM", "SHA384"),
    ("POLICY_VERIFY_CONCURRENCY", "4")]

theorem plainVariables_spaced : plainVariables.SameButBlanks plainVariables.spaced ∧
    TrustConfig.ofEnvironment plainVariables = TrustConfig.ofEnvironment plainVariables.spaced ∧
    BindingConfig.ofEnvironment plainVariables = BindingConfig.ofEnvironment plainVariables.spaced := by
  have hsame := sameButBlanks_spaced plainVariables
  obtain ⟨htrust, -, hbinding⟩ := ofEnvironment_eq_iff plainVariables plainVariables.spaced hsame
  refine ⟨hsame, htrust, hbinding.mpr ⟨?_, ?_⟩⟩
  · intro v v' hv _ hhash
    obtain rfl : v = "SHA384" := (Option.some.inj hv).symm
    have hread : Hash.ofName? (Text.trim "SHA384") = .ok .sha384 := by rfl
    cases hread.symm.trans hhash
  · intro v v' hv
    cases hv

/-- SHA-512, and no check of the chain. -/
def strongVariables : Environment :=
  ofList [("POLICY_SIGNATURE_ALGORITHM", "SHA512"), ("POLICY_SIGNATURE_VERIFY_CHAIN", "false")]

/-- A blank before the two values changes both settings. -/
theorem spaced_values_missed : strongVariables.SameButBlanks strongVariables.spaced ∧
    (BindingConfig.ofEnvironment strongVariables).defaultHash = .sha512 ∧
    (BindingConfig.ofEnvironment strongVariables.spaced).defaultHash = .sha384 ∧
    (BindingConfig.ofEnvironment strongVariables).verifyChain = false ∧
    (BindingConfig.ofEnvironment strongVariables.spaced).verifyChain = true :=
  ⟨sameButBlanks_spaced strongVariables, by decide, by decide, by decide, by decide⟩

end Environment

end PolicySeal
