import PolicySeal.Proofs.Path
import PolicySeal.Proofs.Text.Letters
import PolicySeal.Trust.Paths
/-
  PolicySeal.Proofs.Trust.Paths — where a node's certificates and keys are.

  Each file is where it is set to be, or in its place under the base directory, whatever is set for
  the others. The base directory is the node's own one where there is that directory, and the hub's
  otherwise. How the codes are spelled does not matter: two configurations that differ in that alone
  lead to the same paths (`resolve_exact`).

  A code is joined to the directory of the instances as a path. A plain name leads one step down;
  in general the base directory is inside exactly where the code comes to a single name
  (`base_inside_iff`), and an absolute code, or one with `..` or more than one name, leads elsewhere
  (`codes_lead_elsewhere`).
-/

namespace PolicySeal

/-! ## Files -/

/-- The files of a hierarchy. -/
inductive TrustFile where
  | rootCert
  | rootKey
  | intermediateCert
  | intermediateKey
  | signingCert
  | signingKey
  | chain
  deriving DecidableEq

namespace TrustFile

/-- The directory below the base, and the name in it. -/
def place : TrustFile → String × String
  | rootCert => ("ca", "root.crt")
  | rootKey => ("ca", "root.key")
  | intermediateCert => ("ca", "intermediate.crt")
  | intermediateKey => ("ca", "intermediate.key")
  | signingCert => ("signing", "policy-signer.crt")
  | signingKey => ("signing", "policy-signer.key")
  | chain => ("ca", "chain.pem")

def under (file : TrustFile) (base : Path) : Path := (base.child file.place.1).child file.place.2

theorem plain_place (file : TrustFile) : Path.Plain file.place.1 ∧ Path.Plain file.place.2 := by
  cases file <;> decide

theorem steps_under (file : TrustFile) (base : Path) :
    (file.under base).steps = base.steps ++ [.name file.place.1, .name file.place.2] := by
  rw [under, Path.steps_child _ file.plain_place.2, Path.steps_child _ file.plain_place.1, List.append_assoc]
  rfl

end TrustFile

def PathOverrides.file (o : PathOverrides) : TrustFile → Option Path
  | .rootCert => o.rootCert
  | .rootKey => o.rootKey
  | .intermediateCert => o.intermediateCert
  | .intermediateKey => o.intermediateKey
  | .signingCert => o.signingCert
  | .signingKey => o.signingKey
  | .chain => o.chain

def TrustPaths.file (p : TrustPaths) : TrustFile → Path
  | .rootCert => p.rootCert
  | .rootKey => p.rootKey
  | .intermediateCert => p.intermediateCert
  | .intermediateKey => p.intermediateKey
  | .signingCert => p.signingCert
  | .signingKey => p.signingKey
  | .chain => p.chain

/-! ## Codes -/

/-- The code, without white space around it, is not blank and not that of the hub. -/
structure TrustConfig.IsSpoke (c : TrustConfig) (code : String) : Prop where
  given : c.instanceCode.map Text.trim = some code
  nonblank : code ≠ ""
  other : ¬ Text.sameLetters code (Text.trim c.hubInstanceCode) = true

/-- The same but for the case of the codes' letters and the white space around the codes. -/
structure TrustConfig.SameButSpelling (c d : TrustConfig) : Prop where
  pkiDir : c.pkiDir = d.pkiDir
  instancesDir : c.instancesDir = d.instancesDir
  overrides : c.overrides = d.overrides
  hub : Text.Alike c.hubInstanceCode d.hubInstanceCode
  code : Option.Rel Text.Alike c.instanceCode d.instanceCode

variable {c d : TrustConfig} {code : String} {isDir isDir' : Path → Bool}

theorem Role.ofConfig_eq_spoke_iff {text : String} :
    Role.ofConfig c = .spoke text ↔ ∃ code, c.IsSpoke code ∧ text = Text.upper code := by
  rw [ofConfig]
  cases hcode : c.instanceCode.map Text.trim with
  | none =>
    refine iff_of_false nofun ?_
    rintro ⟨code, hspoke, -⟩
    cases hcode.symm.trans hspoke.given
  | some code =>
    simp only
    split
    · rename_i hhub
      refine iff_of_false nofun ?_
      rintro ⟨other, hspoke, -⟩
      obtain rfl := Option.some.inj (hcode.symm.trans hspoke.given)
      exact hhub.elim hspoke.nonblank hspoke.other
    · rename_i hhub
      obtain ⟨hnonblank, hother⟩ := not_or.mp hhub
      constructor
      · intro h
        cases h
        exact ⟨code, ⟨hcode, hnonblank, hother⟩, rfl⟩
      · rintro ⟨other, hspoke, rfl⟩
        rw [Option.some.inj (hcode.symm.trans hspoke.given)]

/-- The role is told by the codes in small letters, without white space around them. -/
theorem Role.ofConfig_eq_lower (c : TrustConfig) : Role.ofConfig c =
    match c.instanceCode.map fun code => Text.lower (Text.trim code) with
    | none => .hub
    | some code => if code = "" ∨ code = Text.lower (Text.trim c.hubInstanceCode) then .hub else .spoke (Text.upper code) := by
  have hblank : ∀ s : String, Text.lower s = "" ↔ s = "" := fun s => by
    rw [Text.lower, ← String.toList_inj, String.toList_ofList, ← String.toList_inj]
    exact List.map_eq_nil_iff
  cases hcode : c.instanceCode with
  | none => simp [ofConfig, hcode]
  | some code => simp only [ofConfig, hcode, Option.map_some, Text.sameLetters_iff, hblank, Text.upper_lower]

theorem TrustConfig.SameButSpelling.role (h : c.SameButSpelling d) : Role.ofConfig c = Role.ofConfig d := by
  have hcode : (c.instanceCode.map fun code => Text.lower (Text.trim code))
      = d.instanceCode.map fun code => Text.lower (Text.trim code) := by
    have hspelled := h.code
    generalize c.instanceCode = given at hspelled ⊢
    generalize d.instanceCode = other at hspelled ⊢
    cases hspelled with
    | none => rfl
    | some halike => exact congrArg some halike.lower_trim
  rw [Role.ofConfig_eq_lower, Role.ofConfig_eq_lower, hcode, h.hub.lower_trim]

namespace TrustPaths

theorem localDir_upper (c : TrustConfig) (code : String) : localDir c (Text.upper code) = localDir c code := by
  rw [localDir, localDir, Text.lower_upper]

theorem base_of_isSpoke (h : c.IsSpoke code) (isDir : Path → Bool) :
    base c isDir = if isDir (localDir c code) = true then localDir c code else c.pkiDir := by
  rw [base, Role.ofConfig_eq_spoke_iff.mpr ⟨code, h, rfl⟩]
  simp only [localDir_upper]

theorem base_of_not_isSpoke (h : ∀ code, ¬ c.IsSpoke code) (isDir : Path → Bool) : base c isDir = c.pkiDir := by
  rw [base]
  split
  · rfl
  · rename_i text hrole
    obtain ⟨code, hspoke, -⟩ := Role.ofConfig_eq_spoke_iff.mp hrole
    exact absurd hspoke (h code)

/-- The base directory is the hub's, or the node's own. -/
theorem base_cases (c : TrustConfig) (isDir : Path → Bool) :
    base c isDir = c.pkiDir ∨ ∃ code, c.IsSpoke code ∧ isDir (localDir c code) = true ∧ base c isDir = localDir c code := by
  by_cases hspoke : ∃ code, c.IsSpoke code
  · obtain ⟨code, hspoke⟩ := hspoke
    rw [base_of_isSpoke hspoke]
    split
    · rename_i hdir
      exact .inr ⟨code, hspoke, hdir, rfl⟩
    · exact .inl rfl
  · exact .inl (base_of_not_isSpoke (not_exists.mp hspoke) isDir)

theorem base_eq_pkiDir (h : ∀ code, c.IsSpoke code → isDir (localDir c code) = false) : base c isDir = c.pkiDir := by
  rcases base_cases c isDir with hhub | ⟨code, hspoke, hdir, -⟩
  · exact hhub
  · exact absurd hdir (by rw [h code hspoke]; exact Bool.false_ne_true)

theorem file_resolve (c : TrustConfig) (isDir : Path → Bool) (file : TrustFile) :
    (resolve c isDir).file file = (c.overrides.file file).getD (file.under (resolve c isDir).baseDir) := by
  cases file <;> rfl

/-- Where the probes agree on the directory of the code, the spelling of the codes leads nowhere else. -/
theorem base_of_sameButSpelling (h : c.SameButSpelling d)
    (hdir : ∀ code, c.IsSpoke code → isDir (localDir c code) = isDir' (localDir c code)) : base d isDir' = base c isDir := by
  have hlocal : ∀ code, localDir d code = localDir c code := fun code => by rw [localDir, localDir, h.instancesDir]
  rw [base, base, ← h.role]
  cases hrole : Role.ofConfig c with
  | hub => exact h.pkiDir.symm
  | spoke text =>
    obtain ⟨code, hspoke, rfl⟩ := Role.ofConfig_eq_spoke_iff.mp hrole
    simp only [localDir_upper, hlocal, hdir code hspoke, h.pkiDir]

/-- Each file is where it is set to be, or in its place under the base directory, and what is set for the others makes no
difference. The base directory is the hub's, unless the code that is given is not blank and is another than the hub's, and
there is the directory of that code in small letters: then it is that directory. Another configuration that only spells
the codes in another way leads to the same paths and the same role, with every probe that says the same of that one
directory. -/
theorem resolve_exact (c : TrustConfig) (isDir : Path → Bool) :
    (∀ file, (resolve c isDir).file file = (c.overrides.file file).getD (file.under (resolve c isDir).baseDir) ∧
      ∀ o : PathOverrides, o.file file = c.overrides.file file →
        (resolve { c with overrides := o } isDir).file file = (resolve c isDir).file file) ∧
    (∀ code, c.IsSpoke code → isDir (localDir c code) = true → (resolve c isDir).baseDir = localDir c code) ∧
    ((∀ code, c.IsSpoke code → isDir (localDir c code) = false) → (resolve c isDir).baseDir = c.pkiDir) ∧
    ∀ d isDir', c.SameButSpelling d → (∀ code, c.IsSpoke code → isDir (localDir c code) = isDir' (localDir c code)) →
      resolve d isDir' = resolve c isDir := by
  refine ⟨fun file => ⟨file_resolve c isDir file, fun o ho => ?_⟩, fun code hspoke hdir => ?_, base_eq_pkiDir,
    fun d isDir' hspelled hdir => ?_⟩
  · rw [file_resolve, file_resolve, ← ho]
    rfl
  · exact (base_of_isSpoke hspoke isDir).trans (if_pos hdir)
  · rw [resolve, resolve, base_of_sameButSpelling hspelled hdir, hspelled.role, hspelled.overrides]

/-- A spoke, and the same one with its codes spelled otherwise. -/
def frenchNode : TrustConfig := { instanceCode := some "fra" }
def spelledNode : TrustConfig := { instanceCode := some " FRA\t", hubInstanceCode := "usa " }

theorem frenchNode_isSpoke : frenchNode.IsSpoke "fra" := ⟨by decide, by decide, by decide⟩

theorem frenchNode_sameButSpelling : frenchNode.SameButSpelling spelledNode where
  pkiDir := rfl
  instancesDir := rfl
  overrides := rfl
  hub := ⟨"USA", "usa", ⟨[], [], rfl, nofun, nofun⟩, ⟨[], [' '], rfl, nofun, by simp [Text.isBlank]⟩, by decide⟩
  code := .some ⟨"fra", "FRA", ⟨[], [], rfl, nofun, nofun⟩,
    ⟨[' '], ['\t'], rfl, by simp [Text.isBlank], by simp [Text.isBlank]⟩, by decide⟩

/-- The one probe knows the node's directory alone, the other every directory. -/
theorem spelledNode_resolved :
    (resolve frenchNode (· == ⟨"instances/fra/certs"⟩)).baseDir = ⟨"instances/fra/certs"⟩ ∧
      resolve spelledNode (fun _ => true) = resolve frenchNode (· == ⟨"instances/fra/certs"⟩) := by
  obtain ⟨-, hbase, -, hspelled⟩ := resolve_exact frenchNode (· == ⟨"instances/fra/certs"⟩)
  have hdir : localDir frenchNode "fra" = ⟨"instances/fra/certs"⟩ := by decide
  refine ⟨(hbase "fra" frenchNode_isSpoke (by rw [hdir]; rfl)).trans hdir,
    hspelled spelledNode _ frenchNode_sameButSpelling fun code hspoke => ?_⟩
  obtain rfl := Option.some.inj (frenchNode_isSpoke.given.symm.trans hspoke.given)
  rw [hdir]
  rfl

/-! ## Inside the directory of the instances -/

/-- A directory of certificates one name below another directory. -/
def Inside (dir p : Path) : Prop := ∃ name, p.steps = dir.steps ++ [.name name, .name "certs"]

theorem Inside.isPrefix {dir p : Path} (h : Inside dir p) : dir.steps <+: p.steps := by
  obtain ⟨name, hsteps⟩ := h
  exact ⟨_, hsteps.symm⟩

theorem Inside.length_steps {dir p : Path} (h : Inside dir p) : p.steps.length = dir.steps.length + 2 := by
  obtain ⟨name, hsteps⟩ := h
  rw [hsteps, List.length_append]
  rfl

/-- Seen from a directory, the path leads one name below it. -/
def OneBelow (dir p : Path) : Prop :=
  ∃ name, (if p.isAbsolute then p.steps else dir.steps ++ p.steps) = dir.steps ++ [.name name]

/-- The directory of a code: an absolute code replaces the directory of the instances. -/
theorem steps_localDir (c : TrustConfig) (code : String) : (localDir c code).steps =
    (if (⟨Text.lower code⟩ : Path).isAbsolute then (⟨Text.lower code⟩ : Path).steps
      else c.instancesDir.steps ++ (⟨Text.lower code⟩ : Path).steps) ++ [.name "certs"] := by
  rw [localDir, Path.steps_child _ (by decide), Path.child]
  by_cases habsolute : (⟨Text.lower code⟩ : Path).isAbsolute = true
  · rw [if_pos habsolute, Path.join_of_absolute habsolute]
  · rw [if_neg habsolute, Path.steps_join (Bool.not_eq_true _ ▸ habsolute)]

theorem inside_localDir_iff : Inside c.instancesDir (localDir c code) ↔ OneBelow c.instancesDir ⟨Text.lower code⟩ := by
  refine exists_congr fun name => ?_
  have hassoc : c.instancesDir.steps ++ [.name name, .name "certs"]
      = c.instancesDir.steps ++ [.name name] ++ [.name "certs"] := by rw [List.append_assoc]; rfl
  rw [steps_localDir, hassoc, List.append_left_inj]

theorem oneBelow_of_plain {name : String} (h : Path.Plain name) (dir : Path) : OneBelow dir ⟨name⟩ :=
  ⟨name, by rw [h.isAbsolute, if_neg Bool.false_ne_true, h.steps]⟩

theorem plain_lower {name : String} (h : Path.Plain name) : Path.Plain (Text.lower name) := by
  obtain ⟨hseparator, hempty, hdot, hdots⟩ := h
  have hchars : (Text.lower name).toList = name.toList.map Char.toLower := by rw [Text.lower, String.toList_ofList]
  refine ⟨fun h => ?_, ?_, ?_, ?_⟩
  · obtain ⟨c, hc, hlower⟩ := List.mem_map.mp (hchars ▸ h)
    exact hseparator ((Text.toLower_eq_iff (by decide)).mp hlower ▸ hc)
  · rwa [hchars, Ne, Text.map_toLower_eq_iff (by simp)]
  · rwa [hchars, Ne, Text.map_toLower_eq_iff (by simp)]
  · rwa [hchars, Ne, Text.map_toLower_eq_iff (by simp)]

/-- The base directory is the hub's, or that of a code, and then it is one name below the directory of the instances
exactly where the code leads there. Where the code is a plain name it always is. The files that are not set to be
elsewhere are below the base directory. -/
theorem base_inside_iff (c : TrustConfig) (isDir : Path → Bool) :
    ((resolve c isDir).baseDir = c.pkiDir ∨ ∃ code, c.IsSpoke code ∧ (resolve c isDir).baseDir = localDir c code ∧
      (Inside c.instancesDir (resolve c isDir).baseDir ↔ OneBelow c.instancesDir ⟨Text.lower code⟩)) ∧
    ((∀ code, c.IsSpoke code → Path.Plain code) →
      (resolve c isDir).baseDir = c.pkiDir ∨ Inside c.instancesDir (resolve c isDir).baseDir) ∧
    ∀ file, c.overrides.file file = none →
      ((resolve c isDir).file file).steps = (resolve c isDir).baseDir.steps ++ [.name file.place.1, .name file.place.2] := by
  have hbase : (resolve c isDir).baseDir = base c isDir := rfl
  refine ⟨?_, fun hplain => ?_, fun file hfile => ?_⟩
  · refine (base_cases c isDir).imp_right ?_
    rintro ⟨code, hspoke, -, hlocal⟩
    exact ⟨code, hspoke, hlocal, by rw [hbase, hlocal, inside_localDir_iff]⟩
  · refine (base_cases c isDir).imp_right ?_
    rintro ⟨code, hspoke, -, hlocal⟩
    rw [hbase, hlocal, inside_localDir_iff]
    exact oneBelow_of_plain (plain_lower (hplain code hspoke)) _
  · rw [file_resolve, hfile, Option.getD_none, file.steps_under]

/-- The code is one plain name. -/
theorem frenchNode_inside : Inside frenchNode.instancesDir (resolve frenchNode fun _ => true).baseDir := by
  have hplain : ∀ code, frenchNode.IsSpoke code → Path.Plain code := fun code hspoke => by
    obtain rfl := Option.some.inj (frenchNode_isSpoke.given.symm.trans hspoke.given)
    decide
  obtain ⟨-, hinside, -⟩ := base_inside_iff frenchNode fun _ => true
  exact (hinside hplain).resolve_left (by decide)

/-- The base directory is neither the hub's nor inside the directory of the instances. -/
def Elsewhere (c : TrustConfig) (isDir : Path → Bool) : Prop :=
  (resolve c isDir).baseDir ≠ c.pkiDir ∧ ¬ Inside c.instancesDir (resolve c isDir).baseDir

/-- A code that is an absolute path, one that leads up, and one of two names. -/
theorem codes_lead_elsewhere :
    (resolve { instanceCode := some "/etc" } (· == ⟨"/etc/certs"⟩)).baseDir = ⟨"/etc/certs"⟩ ∧
      Elsewhere { instanceCode := some "/etc" } (· == ⟨"/etc/certs"⟩) ∧
      Elsewhere { instanceCode := some "../shared" } (· == ⟨"instances/../shared/certs"⟩) ∧
      Elsewhere { instanceCode := some "a/b" } (· == ⟨"instances/a/b/certs"⟩) := by
  refine ⟨by decide, ⟨by decide, fun h => absurd h.isPrefix (by decide)⟩,
    ⟨by decide, fun h => absurd h.length_steps (by decide)⟩, ⟨by decide, fun h => absurd h.length_steps (by decide)⟩⟩

end TrustPaths

end PolicySeal
