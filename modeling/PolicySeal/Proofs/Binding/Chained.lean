import PolicySeal.Proofs.Binding.Inline
/-
  PolicySeal.Proofs.Binding.Chained — the check of a chain, and the validation of one.

  Both look at the same three signatures. So a certificate is chained exactly where the
  certificates above it load and the validation reports none of these signatures, at whatever
  time and tolerance (`isChained_iff_linked`). The check loads the intermediate certificate
  first, the validation the root. Once a chain was validated, all its certificates are kept,
  and its signing certificate is chained (`chain_checks_agree`). On the store as it was before,
  this needs that the source tells the two paths apart only if the cache does; where the
  intermediate one is the file of the root, named as a directory, it is valid and not chained
  (`valid_chain_not_chained`).
-/

namespace PolicySeal.Trust

open Time

variable {paths : TrustPaths} {s t u : Store} {leaf i r : Certificate} {h : Hierarchy} {v : Validation} {now : Instant}
  {skew : Span}

/-! ## Signatures -/

/-- None of the errors is that of a signature. -/
def Validation.Linked (v : Validation) : Prop := ∀ tier reason, .notIssued tier reason ∉ v.errors

theorem isOk_iff {ε α : Type} {x : Except ε α} : isOk x = true ↔ ∀ e, x ≠ .error e := by
  cases x with
  | ok a => simp [isOk]
  | error e => simp [isOk]

theorem linked_iff (hv : validate? h now skew = some v) :
    v.Linked ↔ isLinked h.signing h.intermediate h.root = true := by
  have hlinked : v.Linked ↔ ∀ tier, isOk ((h.certificate tier).issuance (h.certificate tier.issuer)) = true := by
    refine forall_congr' fun tier => ?_
    rw [isOk_iff]
    exact forall_congr' fun reason => not_congr (mem_notIssued_iff hv)
  rw [hlinked, isLinked, Bool.and_eq_true, Bool.and_eq_true]
  constructor
  · intro hall
    exact ⟨⟨hall .signing, hall .intermediate⟩, hall .root⟩
  · rintro ⟨⟨hsigning, hintermediate⟩, hroot⟩ tier
    cases tier with
    | root => exact hroot
    | intermediate => exact hintermediate
    | signing => exact hsigning

theorem linked_of_isValid (hvalid : v.isValid = true) : v.Linked := by
  intro tier reason
  rw [List.isEmpty_iff.mp hvalid]
  exact List.not_mem_nil

/-! ## Loading in either order -/

/-- The intermediate certificate loads, and then the root. -/
def LoadsIssuers (paths : TrustPaths) (s : Store) (i r : Certificate) : Prop :=
  ∃ t, (load paths.intermediateCert).run s = (some (.ok i), t) ∧ ((load paths.rootCert).run t).1 = some (.ok r)

theorem isChained_eq_true_iff :
    ((isChained paths leaf).run s).1 = some true ↔ ∃ i r, LoadsIssuers paths s i r ∧ isLinked leaf i r = true := by
  constructor
  · intro hrun
    obtain ⟨loaded, t, hi, hrun⟩ := Work.run_bind_eq_some_iff.mp hrun
    cases loaded with
    | error fault => cases hrun
    | ok i =>
      obtain ⟨loaded, u, hr, hrun⟩ := Work.run_bind_eq_some_iff.mp hrun
      cases loaded with
      | error fault => cases hrun
      | ok r => exact ⟨i, r, ⟨t, hi, by rw [hr]⟩, Option.some.inj hrun⟩
  · rintro ⟨i, r, ⟨t, hi, hr⟩, hlinked⟩
    refine Work.run_bind_eq_some_iff.mpr ⟨_, _, hi, ?_⟩
    refine Work.run_bind_eq_some_iff.mpr ⟨_, _, Prod.ext hr rfl, ?_⟩
    exact congrArg some hlinked

/-- A certificate above that does not load. -/
theorem isChained_of_fault {fault : Fault} (hfault : ((load paths.intermediateCert).run s).1 = some (.error fault) ∨
    ∃ i t, (load paths.intermediateCert).run s = (some (.ok i), t) ∧
      ((load paths.rootCert).run t).1 = some (.error fault)) : ((isChained paths leaf).run s).1 = some false := by
  rcases hfault with hi | ⟨i, t, hi, hr⟩
  · rw [result_load] at hi
    exact result_isChained_of_fault hi
  · refine Work.run_bind_eq_some_iff.mpr ⟨_, _, hi, ?_⟩
    exact Work.run_bind_eq_some_iff.mpr ⟨_, _, Prod.ext hr rfl, rfl⟩

theorem run_loadHierarchy_eq_iff : (loadHierarchy paths).run s = (some (.ok h), u) ↔
    ∃ t t', (load paths.rootCert).run s = (some (.ok h.root), t) ∧
      (load paths.intermediateCert).run t = (some (.ok h.intermediate), t') ∧
      (load paths.signingCert).run t' = (some (.ok h.signing), u) := by
  constructor
  · intro hrun
    obtain ⟨loaded, t, hr, hrun⟩ := Work.run_bind_eq_iff.mp hrun
    cases loaded with
    | error fault => cases hrun
    | ok r =>
      obtain ⟨loaded, t', hi, hrun⟩ := Work.run_bind_eq_iff.mp hrun
      cases loaded with
      | error fault => cases hrun
      | ok i =>
        obtain ⟨loaded, u', hsigning, hrun⟩ := Work.run_bind_eq_iff.mp hrun
        cases loaded with
        | error fault => cases hrun
        | ok c =>
          cases hrun
          exact ⟨t, t', hr, hi, hsigning⟩
  · rintro ⟨t, t', hr, hi, hsigning⟩
    refine Work.run_bind_eq_iff.mpr ⟨_, _, hr, Work.run_bind_eq_iff.mpr ⟨_, _, hi, ?_⟩⟩
    exact Work.run_bind_eq_iff.mpr ⟨_, _, hsigning, rfl⟩

theorem run_validate_eq_iff : (validate paths skew).run s = (some (.ok v), u) ↔
    ∃ h, (loadHierarchy paths).run s = (some (.ok h), u) ∧ validate? h u.now skew = some v := by
  constructor
  · intro hrun
    obtain ⟨loaded, t, hh, hrun⟩ := Work.run_bind_eq_iff.mp hrun
    cases loaded with
    | error fault => cases hrun
    | ok h =>
      simp only [Work.run_clock] at hrun
      cases hv : validate? h t.now skew with
      | none =>
        rw [hv] at hrun
        cases hrun
      | some w =>
        rw [hv] at hrun
        cases hrun
        exact ⟨h, hh, hv⟩
  · rintro ⟨h, hh, hv⟩
    refine Work.run_bind_eq_iff.mpr ⟨_, _, hh, ?_⟩
    simp only [Work.run_clock, hv, Work.run_done]

theorem run_of_answer {path : Path} {result : Except Fault Certificate} (hpath : s.answer path = some result) :
    ∃ t, (load path).run s = (some result, t) :=
  ⟨_, Prod.ext ((result_load path s).trans hpath) rfl⟩

theorem answer_of_run {path : Path} {c : Certificate} (hrun : (load path).run s = (some (.ok c), t)) :
    s.answer path = some (.ok c) := by
  rw [← result_load, hrun]

theorem serves_of_run {path : Path} {c : Certificate} (hrun : (load path).run s = (some (.ok c), t)) :
    t.Serves path c := by
  have hserves := serves_after_load (answer_of_run hrun)
  rwa [hrun] at hserves

theorem Store.Serves.of_run {path other : Path} {c : Certificate} {result : Option (Except Fault Certificate)}
    (hs : s.Serves path c) (hrun : (Trust.load other).run s = (result, t)) : t.Serves path c := by
  have hserves := hs.load other
  rwa [hrun] at hserves

theorem loadsIssuers_of_serves (hi : s.Serves paths.intermediateCert i) (hr : s.Serves paths.rootCert r) :
    LoadsIssuers paths s i r := by
  refine ⟨_, Prod.ext ((result_load _ s).trans hi.answer) rfl, ?_⟩
  rw [result_load]
  exact (hr.load _).answer

/-- After the hierarchy was loaded, its intermediate certificate and its root load in the other order. -/
theorem loadsIssuers_after (hrun : (loadHierarchy paths).run s = (some (.ok h), u)) :
    LoadsIssuers paths u h.intermediate h.root := by
  obtain ⟨t, t', hr, hi, hsigning⟩ := run_loadHierarchy_eq_iff.mp hrun
  have hroot : u.Serves paths.rootCert h.root := ((serves_of_run hr).of_run hi).of_run hsigning
  exact loadsIssuers_of_serves ((serves_of_run hi).of_run hsigning) hroot

/-- Where all three have the parts of a path that is answered with a certificate, it is all of the hierarchy. -/
theorem run_loadHierarchy_of_same {c : Certificate} (hkept : 0 ≤ s.ttl.millis)
    (hroot : s.answer paths.rootCert = some (.ok c)) (hintermediate : paths.rootCert.same paths.intermediateCert = true)
    (hsigning : paths.rootCert.same paths.signingCert = true) :
    ∃ u, (loadHierarchy paths).run s = (some (.ok ⟨c, c, c⟩), u) := by
  obtain ⟨t, hr⟩ := run_of_answer hroot
  have hserves : t.Serves paths.rootCert c := serves_of_run hr
  have hkept' : 0 ≤ t.ttl.millis := Work.ttl_of_run hr ▸ hkept
  obtain ⟨t', hi⟩ := run_of_answer (hserves.same hkept' _ hintermediate)
  have hkept'' : 0 ≤ t'.ttl.millis := Work.ttl_of_run hi ▸ hkept'
  obtain ⟨u, hs⟩ := run_of_answer ((hserves.of_run hi).same hkept'' _ hsigning)
  exact ⟨u, run_loadHierarchy_eq_iff.mpr ⟨t, t', hr, hi, hs⟩⟩

/-- A path with the same parts that the source answers in the same way is answered with the same certificate. -/
theorem answer_of_same {path other : Path} {c : Certificate} (hpath : s.answer path = some (.ok c))
    (hsame : path.same other = true) (hsource : s.source other = s.source path) : s.answer other = some (.ok c) := by
  cases hlookup : s.evicted.cache.lookup path with
  | some d =>
    rw [Store.answer_of_lookup hlookup] at hpath
    rw [Cache.lookup_congr hsame] at hlookup
    rw [Store.answer_of_lookup hlookup, hpath]
  | none =>
    rw [Store.answer_of_lookup_eq_none hlookup] at hpath
    obtain ⟨-, text, htext, hread⟩ := readIn_of_outcome hpath
    rw [Cache.lookup_congr hsame] at hlookup
    rw [Store.answer_of_lookup_eq_none hlookup, hsource, htext, outcome, Certificate.ofTextAt_eq_ok hread]

/-- So they do before, unless the source tells the two paths apart and the cache does not. -/
theorem loadsIssuers_before (hrun : (loadHierarchy paths).run s = (some (.ok h), u))
    (hspelled : paths.rootCert.same paths.intermediateCert = true →
      s.source paths.intermediateCert = s.source paths.rootCert) :
    LoadsIssuers paths s h.intermediate h.root := by
  obtain ⟨t, t', hr, hi, -⟩ := run_loadHierarchy_eq_iff.mp hrun
  have hroot : s.answer paths.rootCert = some (.ok h.root) := answer_of_run hr
  have hafter : t.answer paths.intermediateCert = some (.ok h.intermediate) := answer_of_run hi
  have hload := answer_load paths.rootCert paths.intermediateCert s
  rw [hr, hroot] at hload
  have hintermediate : s.answer paths.intermediateCert = some (.ok h.intermediate) := by
    by_cases hsame : paths.rootCert.same paths.intermediateCert = true ∧ 0 ≤ s.ttl.millis
    · have hfile := answer_of_same hroot hsame.1 (hspelled hsame.1)
      simp only [if_pos hsame, hafter] at hload
      rw [hfile, hload]
    · simp only [if_neg hsame, hafter] at hload
      rw [hload]
  refine ⟨_, Prod.ext ((result_load _ s).trans hintermediate) rfl, ?_⟩
  rw [result_load, answer_load, hintermediate]
  simp only
  split
  · rename_i hsame
    -- Both are the file that was loaded first.
    simp only [if_pos (And.intro (Path.same_symm hsame.1) hsame.2), hafter] at hload
    exact hload
  · exact hroot

/-! ## The two checks -/

theorem isTextChained_of_parsed {text : String} {c : Certificate} (htext : Certificate.ofText text = .ok c) :
    isTextChained paths text = isChained paths c := by
  simp only [isTextChained, htext]

/-- For any certificate and any store: it is chained exactly where the intermediate certificate and the root load and
the validation of the three reports none of the signatures, at any time and with any tolerance that leave it an answer.
A text is not chained that is no certificate, nor any certificate while one above does not load. Where the validation of
the hierarchy is valid, each text of its signing certificate is chained on the store that this leaves, and on the store
as it was before unless the source tells the paths of root and intermediate certificate apart and the cache does not. -/
theorem chain_checks_agree (paths : TrustPaths) (s : Store) :
    (∀ leaf, (s.Answers → ∃ chained, ((isChained paths leaf).run s).1 = some chained) ∧
      ∀ now skew, (∀ i r, LoadsIssuers paths s i r → ∃ v, validate? ⟨r, i, leaf⟩ now skew = some v) →
        (((isChained paths leaf).run s).1 = some true ↔
          ∃ i r v, LoadsIssuers paths s i r ∧ validate? ⟨r, i, leaf⟩ now skew = some v ∧ v.Linked)) ∧
    (∀ skew v u, (validate paths skew).run s = (some (.ok v), u) → v.isValid = true →
      ∃ h, ((loadHierarchy paths).run s).1 = some (.ok h) ∧ ∀ text, Certificate.ofText text = .ok h.signing →
        ((isTextChained paths text).run u).1 = some true ∧
        ((paths.rootCert.same paths.intermediateCert = true →
            s.source paths.intermediateCert = s.source paths.rootCert) →
          ((isTextChained paths text).run s).1 = some true)) ∧
    (∀ text, (∀ c, Certificate.ofText text ≠ .ok c) → (isTextChained paths text).run s = (some false, s)) ∧
    ∀ fault, (((load paths.intermediateCert).run s).1 = some (.error fault) ∨
        ∃ i t, (load paths.intermediateCert).run s = (some (.ok i), t) ∧
          ((load paths.rootCert).run t).1 = some (.error fault)) →
      (∀ leaf, ((isChained paths leaf).run s).1 = some false) ∧ ∀ text, ((isTextChained paths text).run s).1 = some false := by
  refine ⟨?_, ?_, ?_, ?_⟩
  · intro leaf
    refine ⟨isChained_ends paths leaf s, fun now skew hrange => ?_⟩
    rw [isChained_eq_true_iff]
    constructor
    · rintro ⟨i, r, hloads, hlinked⟩
      obtain ⟨v, hv⟩ := hrange i r hloads
      exact ⟨i, r, v, hloads, hv, (linked_iff hv).mpr hlinked⟩
    · rintro ⟨i, r, v, hloads, hv, hlinked⟩
      exact ⟨i, r, hloads, (linked_iff hv).mp hlinked⟩
  · intro skew v u hrun hvalid
    obtain ⟨h, hload, hv⟩ := run_validate_eq_iff.mp hrun
    have hlinked := (linked_iff hv).mp (linked_of_isValid hvalid)
    refine ⟨h, by rw [hload], fun text htext => ?_⟩
    rw [isTextChained_of_parsed htext, isChained_eq_true_iff, isChained_eq_true_iff]
    exact ⟨⟨_, _, loadsIssuers_after hload, hlinked⟩, fun hspelled => ⟨_, _, loadsIssuers_before hload hspelled, hlinked⟩⟩
  · intro text hfails
    rw [isTextChained]
    cases htext : Certificate.ofText text with
    | ok c => exact absurd htext (hfails c)
    | error fault => rfl
  · intro fault hfault
    refine ⟨fun leaf => isChained_of_fault hfault, fun text => ?_⟩
    rw [isTextChained]
    cases Certificate.ofText text with
    | ok c => exact isChained_of_fault hfault
    | error _ => rfl

/-! ## The three certificates in one file -/

/-- A certificate under itself, in all three tiers. -/
theorem checkLinks_selfIssued {c : Certificate} (hissued : c.issuance c = .ok ()) (hnames : c.issuer = c.subject) :
    checkLinks ⟨c, c, c⟩ = [] := by
  simp only [checkLinks, checkIssuance, checkNames, hissued, if_pos hnames, List.append_nil]

/-- In its year there is nothing to say of it. -/
theorem validate?_rootCertificate :
    validate? ⟨rootCertificate, rootCertificate, rootCertificate⟩ ⟨1735700000000⟩ (TrustConfig.skew {}) = some ⟨[]⟩ := by
  have hdates : ∀ tier, checkDates? tier rootCertificate ⟨1735700000000⟩ (TrustConfig.skew {}) = some [] := by
    intro tier
    cases tier <;> rfl
  have hlinks := checkLinks_selfIssued Service.rootCertificate_issuance rfl
  simp only [validate?, hdates, hlinks, Option.bind_eq_bind, Option.bind_some, List.append_nil]
  rfl

/-- The file is a valid chain, under whatever name it is the intermediate certificate. -/
theorem validate_oneFile {text : String} (htext : Certificate.ofText text = .ok rootCertificate) {intermediate : Path}
    (hsame : Path.same ⟨"a.crt"⟩ intermediate = true) :
    ∃ u, (loadHierarchy (Opening.oneFilePaths ⟨"a.crt"⟩ intermediate)).run (Service.singleStore text)
        = (some (.ok ⟨rootCertificate, rootCertificate, rootCertificate⟩), u) ∧
      (validate (Opening.oneFilePaths ⟨"a.crt"⟩ intermediate) (TrustConfig.skew {})).run (Service.singleStore text)
        = (some (.ok ⟨[]⟩), u) := by
  have hfile : (Service.singleStore text).answer ⟨"a.crt"⟩ = some (.ok rootCertificate) :=
    (Service.singleStore_holds htext).answer (Path.same_self _) rfl
  have hkept : 0 ≤ (Service.singleStore text).ttl.millis := TrustConfig.ttl_nonneg {}
  have hloads : ∃ u, (loadHierarchy (Opening.oneFilePaths ⟨"a.crt"⟩ intermediate)).run (Service.singleStore text)
      = (some (.ok ⟨rootCertificate, rootCertificate, rootCertificate⟩), u) :=
    run_loadHierarchy_of_same hkept hfile hsame (Path.same_self _)
  obtain ⟨u, hload⟩ := hloads
  refine ⟨u, hload, run_validate_eq_iff.mpr ⟨_, hload, ?_⟩⟩
  rw [Work.now_of_run hload]
  exact validate?_rootCertificate

/-- Where all three are that file, its text is chained, before the validation and after it. -/
theorem oneFile_chained :
    let paths := Opening.oneFilePaths ⟨"a.crt"⟩ ⟨"a.crt"⟩
    let s := Service.singleStore rootCertificate.text
    ∃ v u, (validate paths (TrustConfig.skew {})).run s = (some (.ok v), u) ∧ v.isValid = true ∧
      ((isTextChained paths rootCertificate.text).run u).1 = some true ∧
      ((isTextChained paths rootCertificate.text).run s).1 = some true := by
  intro paths s
  have htext : Certificate.ofText rootCertificate.text = .ok rootCertificate := Service.rootCertificate_parsed
  obtain ⟨u, hload, hvalidate⟩ := validate_oneFile htext (Path.same_self ⟨"a.crt"⟩)
  obtain ⟨-, hvalid, -⟩ := chain_checks_agree paths s
  obtain ⟨h, hh, hchained⟩ := hvalid _ _ u hvalidate rfl
  rw [hload] at hh
  cases hh
  obtain ⟨hafter, hbefore⟩ := hchained rootCertificate.text htext
  exact ⟨_, u, hvalidate, rfl, hafter, hbefore fun _ => rfl⟩

/-- Where the intermediate certificate is that file, named as a directory, the chain is valid, and its text is not
chained: the intermediate certificate is not found without the root. -/
theorem valid_chain_not_chained :
    let paths := Opening.oneFilePaths ⟨"a.crt"⟩ ⟨"a.crt/"⟩
    let s := Service.singleStore rootCertificate.text
    (∃ v u, (validate paths (TrustConfig.skew {})).run s = (some (.ok v), u) ∧ v.isValid = true) ∧
      (∃ h, ((loadHierarchy paths).run s).1 = some (.ok h) ∧ Certificate.ofText rootCertificate.text = .ok h.signing) ∧
      ((isTextChained paths rootCertificate.text).run s).1 = some false := by
  intro paths s
  have htext : Certificate.ofText rootCertificate.text = .ok rootCertificate := Service.rootCertificate_parsed
  have hsame : Path.same ⟨"a.crt"⟩ ⟨"a.crt/"⟩ = true := by decide +kernel
  obtain ⟨u, hload, hvalidate⟩ := validate_oneFile htext hsame
  refine ⟨⟨_, u, hvalidate, rfl⟩, ⟨_, by rw [hload], htext⟩, ?_⟩
  rw [isTextChained_of_parsed htext]
  exact result_isChained_of_fault (Service.answer_singleStore_directory rootCertificate.text)

end PolicySeal.Trust
