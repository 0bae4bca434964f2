import PolicySeal.Proofs.Binding.Chained
import PolicySeal.Proofs.Binding.Consistency
import PolicySeal.Proofs.Json.Paths
/-
  PolicySeal.Proofs.Binding.Listing — the list of the tiers, and the hierarchy loaded from them.

  The list goes on where a tier fails, the hierarchy stops there. Up to that tier they load the
  same, so the hierarchy is what the summaries come to, one after the other (`result_loadAll`):
  the certificates of all, or the fault of the first that is not loaded (`Agree`). What the
  hierarchy has loaded is served to the list as it would have been loaded by it
  (`result_summaries_after_loadAll`). The list may load more than the hierarchy, and what it loads
  is served for all paths with the same parts: it changes nothing for the hierarchy where the source
  answers alike at these (`alikeOn_after_summaries`, `listing_agrees`), and makes a root load that
  does not by itself where it is named like a directory (`listing_first_loads_root`).
-/

namespace PolicySeal.Trust

variable {paths : TrustPaths} {s t : Store} {now : Time.Instant} {ts : List (Tier × Path)} {listing : List Summary}
  {asked : List Path}

/-! ## Loading up to the first fault -/

/-- Loads the certificates of some tiers, up to the first that fails. -/
def loadAll : List (Tier × Path) → Work (Except Fault (List Certificate))
  | [] => return .ok []
  | (_, path) :: rest => do
    match ← load path with
    | .error fault => return .error fault
    | .ok c => return (← loadAll rest).map (c :: ·)

/-- The certificates from the root down. -/
def Hierarchy.certificates (h : Hierarchy) : List Certificate := [h.root, h.intermediate, h.signing]

theorem loadAll_tiers (paths : TrustPaths) :
    loadAll (tiers paths) = loadHierarchy paths >>= fun result => .done (result.map Hierarchy.certificates) := by
  rw [loadHierarchy, Work.bind_assoc]
  refine congrArg (load paths.rootCert >>= ·) (funext fun root => ?_)
  cases root with
  | error fault => rfl
  | ok root =>
    simp only [loadAll, Work.bind_assoc]
    refine congrArg (load paths.intermediateCert >>= ·) (funext fun intermediate => ?_)
    cases intermediate with
    | error fault => rfl
    | ok intermediate =>
      simp only [Work.bind_assoc]
      refine congrArg (load paths.signingCert >>= ·) (funext fun signing => ?_)
      cases signing <;> rfl

theorem run_loadAll_tiers (paths : TrustPaths) (s : Store) : (loadAll (tiers paths)).run s =
    (((loadHierarchy paths).run s).1.map fun result => result.map Hierarchy.certificates,
      ((loadHierarchy paths).run s).2) := by
  rw [loadAll_tiers, Work.run_bind]
  obtain ⟨result, u⟩ := (loadHierarchy paths).run s
  cases result <;> rfl

/-! ## The same of the tiers -/

/-- A summary and those after it come from loading its path and from the tiers after it. -/
theorem result_summaries_cons {tier : Tier} {path : Path} {rest : List (Tier × Path)} :
    ((summaries now ((tier, path) :: rest)).run s).1 = some listing ↔
      ∃ loaded more, s.answer path = some loaded ∧ ((summaries now rest).run ((load path).run s).2).1 = some more ∧
        listing = ⟨tier, path, loaded, now⟩ :: more := by
  rw [summaries, Work.run_bind_eq_some_iff]
  constructor
  · rintro ⟨loaded, t, hload, hrest⟩
    obtain ⟨more, u, hmore, hlisting⟩ := Work.run_bind_eq_some_iff.mp hrest
    refine ⟨loaded, more, by rw [← result_load, hload], by rw [hload, hmore], ?_⟩
    exact (Option.some.inj hlisting).symm
  · rintro ⟨loaded, more, hload, hmore, rfl⟩
    refine ⟨loaded, _, Prod.ext ((result_load path s).trans hload) rfl, ?_⟩
    exact Work.run_bind_eq_some_iff.mpr ⟨more, _, Prod.ext hmore rfl, rfl⟩

/-- The summaries are of the tiers, in their order. -/
theorem tiers_of_summaries (h : ((summaries now ts).run s).1 = some listing) :
    listing.map (fun x => (x.tier, x.path)) = ts := by
  induction ts generalizing s listing with
  | nil =>
    cases h
    rfl
  | cons t rest ih =>
    obtain ⟨loaded, more, -, hmore, rfl⟩ := result_summaries_cons.mp h
    rw [List.map_cons, ih hmore]

theorem summaries_ends (now : Time.Instant) (ts : List (Tier × Path)) : (summaries now ts).Ends := by
  induction ts with
  | nil => exact Work.ends_done []
  | cons t rest ih => exact (load_ends t.2).bind fun _ => ih.bind fun _ => Work.ends_done _

/-- Up to the first fault the same is loaded. -/
theorem result_loadAll (h : ((summaries now ts).run s).1 = some listing) :
    ((loadAll ts).run s).1 = some (listing.mapM Summary.certificate) := by
  induction ts generalizing s listing with
  | nil =>
    cases h
    rfl
  | cons t rest ih =>
    obtain ⟨loaded, more, hload, hmore, rfl⟩ := result_summaries_cons.mp h
    rw [List.mapM_cons]
    refine Work.run_bind_eq_some_iff.mpr ⟨loaded, _, Prod.ext ((result_load t.2 s).trans hload) rfl, ?_⟩
    cases loaded with
    | error fault => rfl
    | ok c =>
      refine Work.run_bind_eq_some_iff.mpr ⟨_, _, Prod.ext (ih hmore) rfl, ?_⟩
      cases more.mapM Summary.certificate <;> rfl

/-! ## What is told of a tier -/

namespace Summary

def isLoaded (x : Summary) : Bool := isOk x.certificate

/-- A member of what is listed of the tier. -/
def told (x : Summary) (name : String) : Option Json := Json.member? (some x.toJson) name

/-- The tier is listed as loaded, with what the certificate says of itself. -/
structure Tells (x : Summary) (c : Certificate) : Prop where
  loaded : x.told "loaded" = some (.bool true)
  subject : x.told "subject" = some (.string c.subject)
  issuer : x.told "issuer" = some (.string c.issuer)
  serialNumber : x.told "serialNumber" = some (.string c.serialNumber)
  validFrom : x.told "validFrom" = some (.string c.validFrom.reading.text)
  validTo : x.told "validTo" = some (.string c.validTo.reading.text)
  error : x.told "error" = none

/-- The tier is listed as not loaded, with the message of the fault. -/
structure Reports (x : Summary) (fault : Fault) : Prop where
  loaded : x.told "loaded" = some (.bool false)
  error : x.told "error" = some (.string fault.message)

variable {x : Summary} {c : Certificate} {fault : Fault}

theorem tells_of_certificate (h : x.certificate = .ok c) : x.Tells c := by
  constructor <;> simp [told, toJson, h, Json.Members.get?]

theorem reports_of_certificate (h : x.certificate = .error fault) : x.Reports fault := by
  constructor <;> simp [told, toJson, h, Json.Members.get?]

end Summary

/-- A listing of the tiers and the hierarchy, or the fault, that loading them comes to. -/
structure Agree (listing : List Summary) (result : Except Fault Hierarchy) : Prop where
  loaded : (∃ h, result = .ok h) ↔ ∀ x ∈ listing, x.isLoaded = true
  tells : ∀ h, result = .ok h → ∀ x ∈ listing, x.Tells (h.certificate x.tier)
  reports : ∀ fault, result = .error fault → ∃ x, listing.find? (fun x => !x.isLoaded) = some x ∧ x.Reports fault

/-- All are loaded, as these certificates. -/
theorem certificates_of_mapM {cs : List Certificate} (h : listing.mapM Summary.certificate = .ok cs) :
    listing.map Summary.certificate = cs.map .ok := by
  induction listing generalizing cs with
  | nil =>
    cases h
    rfl
  | cons x listing ih =>
    rw [List.mapM_cons] at h
    obtain ⟨c, hc, h⟩ := Json.Except.bind_eq_ok_iff.mp h
    obtain ⟨more, hmore, h⟩ := Json.Except.bind_eq_ok_iff.mp h
    cases h
    rw [List.map_cons, List.map_cons, hc, ih hmore]

/-- The first that is not loaded has the fault. -/
theorem first_of_mapM {fault : Fault} (h : listing.mapM Summary.certificate = .error fault) :
    ∃ x, listing.find? (fun x => !x.isLoaded) = some x ∧ x.certificate = .error fault := by
  induction listing with
  | nil => cases h
  | cons x listing ih =>
    rw [List.mapM_cons] at h
    cases hx : x.certificate with
    | error other =>
      rw [hx] at h
      cases h
      exact ⟨x, List.find?_cons_of_pos (by rw [Summary.isLoaded, hx]; rfl), hx⟩
    | ok c =>
      rw [hx] at h
      have hmore : listing.mapM Summary.certificate = .error fault := by
        cases hrest : listing.mapM Summary.certificate with
        | error other =>
          rw [hrest] at h
          cases h
          rfl
        | ok cs =>
          rw [hrest] at h
          cases h
      obtain ⟨y, hy, hfault⟩ := ih hmore
      exact ⟨y, by rw [List.find?_cons_of_neg (by simp [Summary.isLoaded, hx, isOk]), hy], hfault⟩

theorem agree_of_mapM {result : Except Fault Hierarchy}
    (htiers : listing.map Summary.tier = [.root, .intermediate, .signing])
    (h : listing.mapM Summary.certificate = result.map Hierarchy.certificates) : Agree listing result := by
  cases result with
  | error fault =>
    obtain ⟨x, hfirst, hx⟩ := first_of_mapM h
    refine ⟨⟨fun hloaded => ?_, fun hall => ?_⟩, fun other hother => ?_, fun other hother => ?_⟩
    · obtain ⟨_, hloaded⟩ := hloaded
      cases hloaded
    · have hnot := List.find?_some hfirst
      rw [hall x (List.mem_of_find?_eq_some hfirst)] at hnot
      cases hnot
    · cases hother
    · cases hother
      exact ⟨x, hfirst, Summary.reports_of_certificate hx⟩
  | ok h' =>
    have hcertificates := certificates_of_mapM h
    have hall : ∀ x ∈ listing, x.certificate = .ok (h'.certificate x.tier) := by
      obtain ⟨x, y, z, rfl⟩ := List.length_eq_three.mp (show listing.length = 3 by simpa using congrArg List.length htiers)
      simp_all [Hierarchy.certificates, Hierarchy.certificate]
    refine ⟨⟨fun _ x hx => ?_, fun _ => ⟨h', rfl⟩⟩, fun other hother x hx => ?_, fun fault hfault => ?_⟩
    · rw [Summary.isLoaded, hall x hx]
      rfl
    · cases hother
      exact Summary.tells_of_certificate (hall x hx)
    · cases hfault

/-! ## The hierarchy first -/

theorem respects_summaries (now : Time.Instant) (h : ∀ t ∈ ts, t.2 ∈ asked) : (summaries now ts).Respects asked := by
  induction ts with
  | nil => exact Work.respects_done []
  | cons t rest ih =>
    obtain ⟨hpath, hrest⟩ := List.forall_mem_cons.mp h
    exact (respects_load hpath).bind fun _ => (ih hrest).bind fun _ => Work.respects_done _

theorem Store.AlikeOn.symm (h : s.AlikeOn asked t) : t.AlikeOn asked s :=
  ⟨h.now.symm, h.ttl.symm, fun path hpath => (h.answers path hpath).symm⟩

theorem Store.AlikeOn.trans {u : Store} (h : s.AlikeOn asked t) (h' : t.AlikeOn asked u) : s.AlikeOn asked u :=
  ⟨h.now.trans h'.now, h.ttl.trans h'.ttl, fun path hpath => (h.answers path hpath).trans (h'.answers path hpath)⟩

/-- A load of a path whose certificate is served already changes none of the answers. -/
theorem Store.Serves.alikeOn_after_load {path : Path} {c : Certificate} (h : s.Serves path c) :
    s.AlikeOn asked ((Trust.load path).run s).2 := by
  refine Trust.alikeOn_after_load fun d hd hkept other _ hsame => ?_
  rw [← hd, h.answer]
  exact h.same hkept other hsame

section

variable {tier : Tier} {path : Path} {c : Certificate} {rest : List (Tier × Path)}

/-- Loading goes on from the store that the first tier leaves, if it is loaded, -/
theorem store_loadAll_of_loaded (h : s.answer path = some (.ok c)) :
    ((loadAll ((tier, path) :: rest)).run s).2 = ((loadAll rest).run ((load path).run s).2).2 := by
  have hrun : (load path).run s = (some (.ok c), ((load path).run s).2) := Prod.ext ((result_load path s).trans h) rfl
  rw [loadAll, Work.run_bind, hrun]
  simp only [Work.run_bind]
  cases hmore : (loadAll rest).run ((load path).run s).2 with
  | mk result u => cases result <;> rfl

/-- and ends there, if it is not. -/
theorem store_loadAll_of_failed (h : ∀ c, s.answer path ≠ some (.ok c)) :
    ((loadAll ((tier, path) :: rest)).run s).2 = ((load path).run s).2 := by
  rw [loadAll, Work.run_bind]
  cases hrun : (load path).run s with
  | mk result u =>
    have hresult : s.answer path = result := by rw [← result_load, hrun]
    cases result with
    | none => rfl
    | some loaded =>
      cases loaded with
      | error fault => rfl
      | ok c => exact absurd hresult (h c)

/-- A certificate that is served stays so. -/
theorem Store.Serves.loadAll (h : s.Serves path c) (ts : List (Tier × Path)) :
    ((loadAll ts).run s).2.Serves path c := by
  induction ts generalizing s with
  | nil => exact h
  | cons t rest ih =>
    by_cases hloaded : ∃ d, s.answer t.2 = some (.ok d)
    · obtain ⟨d, hd⟩ := hloaded
      rw [store_loadAll_of_loaded hd]
      exact ih (h.load t.2)
    · rw [store_loadAll_of_failed (not_exists.mp hloaded)]
      exact h.load t.2

end

/-- What was loaded up to the first fault does not change what is listed. -/
theorem result_summaries_after_loadAll (now : Time.Instant) (ts : List (Tier × Path)) (s : Store) :
    ((summaries now ts).run ((loadAll ts).run s).2).1 = ((summaries now ts).run s).1 := by
  induction ts generalizing s with
  | nil => rfl
  | cons t rest ih =>
    let asked := (t :: rest).map Prod.snd
    have hasked : ∀ u ∈ t :: rest, u.2 ∈ asked := fun u hu => List.mem_map_of_mem hu
    by_cases hloaded : ∃ c, s.answer t.2 = some (.ok c)
    · obtain ⟨c, hc⟩ := hloaded
      let s₁ := ((load t.2).run s).2
      let u := ((loadAll rest).run s₁).2
      have hserves : u.Serves t.2 c := (serves_after_load hc).loadAll rest
      have halike : u.AlikeOn asked ((load t.2).run u).2 := hserves.alikeOn_after_load
      have hrest : ((summaries now rest).run ((load t.2).run u).2).1 = ((summaries now rest).run s₁).1 := by
        rw [← ih s₁]
        exact ((respects_summaries now fun v hv => hasked v (List.mem_cons_of_mem _ hv)) _ _ halike).1.symm
      rw [store_loadAll_of_loaded hc]
      refine Option.ext fun listing => ?_
      rw [result_summaries_cons, result_summaries_cons, hserves.answer, hc, hrest]
    · have hfailed := not_exists.mp hloaded
      rw [store_loadAll_of_failed hfailed]
      have halike : s.AlikeOn asked ((load t.2).run s).2 := alikeOn_after_load fun c hc => absurd hc (hfailed c)
      exact ((respects_summaries now hasked) _ _ halike).1.symm

/-! ## The list first -/

/-- Paths with the same parts are answered with the same certificate, if with any. -/
def Store.Uniform (s : Store) (asked : List Path) : Prop :=
  ∀ path ∈ asked, ∀ other ∈ asked, path.same other = true → ∀ c, s.answer path = some (.ok c) →
    s.answer other = some (.ok c)

/-- So they are where the source answers alike at them. -/
theorem uniform_of_source
    (h : ∀ path ∈ asked, ∀ other ∈ asked, path.same other = true → s.source path = s.source other) :
    s.Uniform asked :=
  fun path hpath other hother hsame _ hc => answer_of_same hc hsame (h path hpath other hother hsame).symm

theorem Store.Uniform.of_alikeOn (h : s.Uniform asked) (halike : s.AlikeOn asked t) : t.Uniform asked := by
  intro path hpath other hother hsame c hc
  rw [← halike.answers other hother]
  exact h path hpath other hother hsame c ((halike.answers path hpath).trans hc)

theorem Store.Uniform.alikeOn_after_load (h : s.Uniform asked) {path : Path} (hpath : path ∈ asked) :
    s.AlikeOn asked ((load path).run s).2 :=
  Trust.alikeOn_after_load fun c hc _ other hother hsame => h path hpath other hother hsame c hc

/-- There nothing that is listed changes any answer. -/
theorem alikeOn_after_summaries (now : Time.Instant) (h : s.Uniform asked) (hasked : ∀ t ∈ ts, t.2 ∈ asked) :
    s.AlikeOn asked ((summaries now ts).run s).2 := by
  induction ts generalizing s with
  | nil => exact ⟨rfl, rfl, fun _ _ => rfl⟩
  | cons t rest ih =>
    obtain ⟨hpath, hrest⟩ := List.forall_mem_cons.mp hasked
    have hload := h.alikeOn_after_load hpath
    have hmore := ih (h.of_alikeOn hload) hrest
    rw [summaries, Work.run_bind]
    cases hrun : (load t.2).run s with
    | mk loaded u =>
      rw [hrun] at hload hmore
      cases loaded with
      | none => exact hload
      | some loaded =>
        simp only [Work.run_bind]
        cases hrest : (summaries now rest).run u with
        | mk more v =>
          rw [hrest] at hmore
          cases more <;> exact hload.trans hmore

theorem respects_loadHierarchy (h : ∀ t ∈ tiers paths, t.2 ∈ asked) : (loadHierarchy paths).Respects asked := by
  obtain ⟨hroot, hintermediate, hsigning, -⟩ : paths.rootCert ∈ asked ∧ paths.intermediateCert ∈ asked ∧
      paths.signingCert ∈ asked ∧ True := by simpa [tiers] using h
  refine (respects_load hroot).bind fun root => ?_
  cases root with
  | error fault => exact Work.respects_done _
  | ok root =>
    refine (respects_load hintermediate).bind fun intermediate => ?_
    cases intermediate with
    | error fault => exact Work.respects_done _
    | ok intermediate =>
      refine (respects_load hsigning).bind fun signing => ?_
      cases signing <;> exact Work.respects_done _

/-! ## Both -/

/-- In a store whose source answers, whatever is in the cache: the tiers are listed from the root down, and the
hierarchy loads exactly where all of them are loaded, with the certificates that are listed; else it gives the fault of
the first that is not. Nothing is listed differently after the hierarchy was loaded, and the hierarchy loads as before
after the tiers were listed, unless the source tells two of their paths apart and the cache does not. -/
theorem listing_agrees (paths : TrustPaths) (hs : s.Answers) : ∃ listing result,
    ((list paths).run s).1 = some listing ∧ ((loadHierarchy paths).run s).1 = some result ∧
      listing.map (fun x => (x.tier, x.path)) = [(.root, paths.rootCert), (.intermediate, paths.intermediateCert),
        (.signing, paths.signingCert)] ∧
      Agree listing result ∧
      ((list paths).run ((loadHierarchy paths).run s).2).1 = some listing ∧
      ((∀ t ∈ tiers paths, ∀ u ∈ tiers paths, t.2.same u.2 = true → s.source t.2 = s.source u.2) →
        ((loadHierarchy paths).run ((list paths).run s).2).1 = some result) := by
  obtain ⟨listing, hlisting⟩ := summaries_ends s.now (tiers paths) s hs
  have hall := run_loadAll_tiers paths s
  have hloaded := result_loadAll hlisting
  have htiers := tiers_of_summaries hlisting
  rw [hall] at hloaded
  obtain ⟨result, hresult, hmap⟩ := Option.map_eq_some_iff.mp hloaded
  have horder : listing.map Summary.tier = [.root, .intermediate, .signing] := by
    simpa [tiers, Function.comp_def] using congrArg (List.map Prod.fst) htiers
  refine ⟨listing, result, hlisting, hresult, htiers, agree_of_mapM horder hmap.symm, ?_, fun hspelled => ?_⟩
  · obtain ⟨-, -, hnow⟩ := Work.run_keeps (loadHierarchy paths) s
    have hafter := result_summaries_after_loadAll s.now (tiers paths) s
    rw [hall] at hafter
    rw [list, Work.run_clock, hnow, hafter, hlisting]
  · let asked := (tiers paths).map Prod.snd
    have hasked : ∀ t ∈ tiers paths, t.2 ∈ asked := fun t ht => List.mem_map_of_mem ht
    have huniform : s.Uniform asked := by
      refine uniform_of_source fun path hpath other hother => ?_
      obtain ⟨t, ht, rfl⟩ := List.mem_map.mp hpath
      obtain ⟨u, hu, rfl⟩ := List.mem_map.mp hother
      exact hspelled t ht u hu
    have halike := alikeOn_after_summaries s.now huniform hasked
    rw [← hresult]
    exact ((respects_loadHierarchy hasked) _ _ halike).1.symm

/-! ## A tier that is missing -/

theorem answers_singleStore (text : String) : (Service.singleStore text).Answers :=
  Store.answers_of_files (Opening.oneFile text) rfl

/-- What is listed of a node with root and signing certificate in one file, and no intermediate certificate. -/
def missingTierListing : List Summary :=
  [⟨.root, ⟨"a.crt"⟩, .ok rootCertificate, ⟨1735700000000⟩⟩,
    ⟨.intermediate, ⟨"b.crt"⟩, .error (.certificateNotFound ⟨"b.crt"⟩), ⟨1735700000000⟩⟩,
    ⟨.signing, ⟨"a.crt"⟩, .ok rootCertificate, ⟨1735700000000⟩⟩]

theorem result_list_missingTier :
    ((list (Opening.oneFilePaths ⟨"a.crt"⟩ ⟨"b.crt"⟩)).run (Service.singleStore rootCertificate.text)).1
      = some missingTierListing := by
  let s := Service.singleStore rootCertificate.text
  let s₁ := ((load ⟨"a.crt"⟩).run s).2
  have hfile : s.answer ⟨"a.crt"⟩ = some (.ok rootCertificate) :=
    (Service.singleStore_holds Service.rootCertificate_parsed).answer (Path.same_self _) rfl
  have hserves : s₁.Serves ⟨"a.crt"⟩ rootCertificate := serves_after_load hfile
  have hother : ¬ Path.same ⟨"a.crt"⟩ ⟨"b.crt"⟩ = true := by decide +kernel
  have hmissing : s.answer ⟨"b.crt"⟩ = some (.error (.certificateNotFound ⟨"b.crt"⟩)) :=
    Store.answer_of_lookup_eq_none rfl
  have hstill : s₁.answer ⟨"b.crt"⟩ = some (.error (.certificateNotFound ⟨"b.crt"⟩)) := by
    rw [answer_load, hfile]
    simp only
    rw [if_neg fun h => hother h.1, hmissing]
  have htiers : tiers (Opening.oneFilePaths ⟨"a.crt"⟩ ⟨"b.crt"⟩)
      = [(.root, ⟨"a.crt"⟩), (.intermediate, ⟨"b.crt"⟩), (.signing, ⟨"a.crt"⟩)] := rfl
  rw [list, Work.run_clock, htiers]
  refine result_summaries_cons.mpr ⟨_, _, hfile, ?_, rfl⟩
  refine result_summaries_cons.mpr ⟨_, _, hstill, ?_, rfl⟩
  exact result_summaries_cons.mpr ⟨_, [], (hserves.load _).answer, rfl, rfl⟩

/-- The hierarchy does not load, for the fault that is listed. -/
theorem missingTier_listed :
    let paths := Opening.oneFilePaths ⟨"a.crt"⟩ ⟨"b.crt"⟩
    let s := Service.singleStore rootCertificate.text
    s.Answers ∧ (∀ t ∈ tiers paths, ∀ u ∈ tiers paths, t.2.same u.2 = true → s.source t.2 = s.source u.2) ∧
      ((list paths).run s).1 = some missingTierListing ∧
      ((list paths).run ((loadHierarchy paths).run s).2).1 = some missingTierListing ∧
      ∃ fault, ((loadHierarchy paths).run s).1 = some (.error fault) ∧
        ((loadHierarchy paths).run ((list paths).run s).2).1 = some (.error fault) ∧
        fault.message = "certificate not found: b.crt" := by
  intro paths s
  have hspelled : ∀ t ∈ tiers paths, ∀ u ∈ tiers paths, t.2.same u.2 = true → s.source t.2 = s.source u.2 := by
    have hother : Path.same ⟨"a.crt"⟩ ⟨"b.crt"⟩ = false ∧ Path.same ⟨"b.crt"⟩ ⟨"a.crt"⟩ = false := by decide +kernel
    have htiers : tiers paths = [(.root, ⟨"a.crt"⟩), (.intermediate, ⟨"b.crt"⟩), (.signing, ⟨"a.crt"⟩)] := rfl
    simp [htiers, hother]
  obtain ⟨listing, result, hlisting, hresult, -, hagree, hagain, hafter⟩ :=
    listing_agrees paths (answers_singleStore rootCertificate.text)
  obtain rfl : missingTierListing = listing := Option.some.inj (result_list_missingTier.symm.trans hlisting)
  refine ⟨answers_singleStore _, hspelled, hlisting, hagain, ?_⟩
  cases result with
  | ok h =>
    have hall := hagree.loaded.mp ⟨h, rfl⟩ _ (List.mem_cons_of_mem _ List.mem_cons_self)
    cases hall
  | error fault =>
    refine ⟨fault, hresult, hafter hspelled, ?_⟩
    obtain ⟨x, hfirst, hreports⟩ := hagree.reports fault rfl
    have hsecond : missingTierListing.find? (fun x => !x.isLoaded)
        = some ⟨.intermediate, ⟨"b.crt"⟩, .error (.certificateNotFound ⟨"b.crt"⟩), ⟨1735700000000⟩⟩ := rfl
    rw [hsecond, Option.some.injEq] at hfirst
    have hmessage := hreports.error
    rw [← hfirst, (Summary.reports_of_certificate rfl).error, Option.some.injEq, Json.string.injEq] at hmessage
    rw [← hmessage]
    rfl

/-! ## A root that is named as a directory -/

/-- What was read for the intermediate certificate is served for the root. -/
theorem serves_after_list {text : String} {c : Certificate} (h : Certificate.ofTextAt ⟨"a.crt"⟩ text = .ok c) :
    ((list (Opening.oneFilePaths ⟨"a.crt/"⟩ ⟨"a.crt"⟩)).run (Service.singleStore text)).2.Serves ⟨"a.crt"⟩ c := by
  let s := Service.singleStore text
  have hlisted : ((list (Opening.oneFilePaths ⟨"a.crt/"⟩ ⟨"a.crt"⟩)).run s).2
      = s.evicted.keeping ⟨⟨"a.crt"⟩, c, s.now⟩ := Opening.serve_list_twoNames h
  have hkept : 0 ≤ s.ttl.millis := TrustConfig.ttl_nonneg {}
  have hnone : s.evicted.cache.lookup ⟨"a.crt"⟩ = none := rfl
  have hanswer : ∀ other, Path.same ⟨"a.crt"⟩ other = true →
      (s.evicted.keeping ⟨⟨"a.crt"⟩, c, s.now⟩).answer other = some (.ok c) := by
    intro other hsame
    rw [Store.answer_keeping hnone, if_pos ⟨hsame, hkept⟩]
  rw [hlisted]
  exact ⟨hanswer _ (Path.same_self _), fun _ => hanswer⟩

theorem loadHierarchy_after_list {text : String} {c : Certificate} (h : Certificate.ofTextAt ⟨"a.crt"⟩ text = .ok c) :
    let paths := Opening.oneFilePaths ⟨"a.crt/"⟩ ⟨"a.crt"⟩
    ((loadHierarchy paths).run ((list paths).run (Service.singleStore text)).2).1 = some (.ok ⟨c, c, c⟩) := by
  intro paths
  have hsame : Path.same ⟨"a.crt"⟩ ⟨"a.crt/"⟩ = true := by decide +kernel
  have hserves := serves_after_list h
  obtain ⟨-, httl, -⟩ := Work.run_keeps (list paths) (Service.singleStore text)
  have hkept : 0 ≤ ((list paths).run (Service.singleStore text)).2.ttl.millis := httl ▸ TrustConfig.ttl_nonneg {}
  have hback := Path.same_symm hsame
  have hloads : ∃ u, (loadHierarchy paths).run ((list paths).run (Service.singleStore text)).2
      = (some (.ok ⟨c, c, c⟩), u) :=
    run_loadHierarchy_of_same hkept (hserves.same hkept _ hsame) hback hback
  obtain ⟨u, hload⟩ := hloads
  rw [hload]

/-- The root does not load by itself, and does once the tiers were listed. -/
theorem listing_first_loads_root :
    let paths := Opening.oneFilePaths ⟨"a.crt/"⟩ ⟨"a.crt"⟩
    let s := Service.singleStore rootCertificate.text
    ((loadHierarchy paths).run s).1 = some (.error (.unreadable ⟨"a.crt/"⟩ "Not a directory (os error 20)")) ∧
      ((loadHierarchy paths).run ((list paths).run s).2).1
        = some (.ok ⟨rootCertificate, rootCertificate, rootCertificate⟩) := by
  intro paths s
  refine ⟨?_, loadHierarchy_after_list (Opening.rootCertificate_read _)⟩
  have hfault := Service.answer_singleStore_directory rootCertificate.text
  exact Work.run_bind_eq_some_iff.mpr ⟨_, _, Prod.ext ((result_load _ s).trans hfault) rfl, rfl⟩

end PolicySeal.Trust
