import Mathlib.Data.List.Induction
import PolicySeal.Binding.Service
import PolicySeal.Files.Tree
import PolicySeal.Proofs.Certificate
import PolicySeal.Proofs.Trust.Chain
import PolicySeal.Proofs.Trust.Loads
/-
  PolicySeal.Proofs.Binding.Staleness — how old the certificates of a node can be.

  A store is opened with an empty cache (`Opening`) and then goes through any events: it is
  asked for something, its cache is cleared, its source becomes another one, time passes.
  Whatever is asked for is put together from loads (`work_loading`) and does to the store what
  some loads do (`serve_eq_afterLoads`), so every entry of the cache was read at some moment of
  the run after the last clearing, when its time says (`readDuring_of_mem`). Hence a certificate
  that is loaded stood in the source no longer ago than entries are kept, and where the source
  has not changed since then, the cache makes no difference (`load_staleness`). Entries are
  found by the parts of a path, sources may look at its text (`other_spelling_served`).
-/

namespace PolicySeal

open Trust Json

/-! ## Reading a text -/

/-- A text is read back from its bytes. -/
theorem Text.ofUtf8?_utf8 (s : String) : Text.ofUtf8? (Text.utf8 s) = some s := by
  have hbytes : (⟨(Text.utf8 s).toArray⟩ : ByteArray) = s.toByteArray := by
    rw [Text.utf8, ← String.utf8Encode_toList, List.utf8Encode]
    apply ByteArray.ext
    simp
  rw [Text.ofUtf8?, String.fromUTF8?, hbytes, dif_pos s.isValidUTF8]
  rfl

namespace Certificate

/-- The path of a text plays a part in faults only. -/
theorem ofDocument_eq_ok {a b : Path} {d : X509.Document} {c : Certificate} (h : ofDocument a d = .ok c) :
    ofDocument b d = .ok c := by
  rw [ofDocument_eq_ok_iff] at h ⊢
  exact h

theorem ofTextAt_eq_ok {a b : Path} {text : String} {c : Certificate} (h : ofTextAt a text = .ok c) :
    ofTextAt b text = .ok c := by
  rw [ofTextAt] at h ⊢
  split at h
  · cases h
  · cases h
  · exact ofDocument_eq_ok h

end Certificate

/-! ## Services -/

namespace Service

variable (s : Service) (p : Policy)

theorem signWithDefault_loading : (s.signWithDefault p).Loading := by
  refine (load_loading _).bind fun certificate => ?_
  cases certificate with
  | error fault => exact .done _
  | ok certificate =>
    refine (loadKey_loading _).bind fun key => ?_
    cases key with
    | error fault => exact .done _
    | ok key =>
      simp only
      cases p.rsaSignature key s.config.defaultHash with
      | error fault => exact .done _
      | ok value => exact .clock fun _ => .done _

theorem verifyUnder_loading (h : Hash) (signature : Bytes) (c : Certificate) (verifyChain : Bool) :
    (s.verifyUnder p h signature c verifyChain).Loading := by
  refine .clock fun now => ?_
  split
  · exact .done _
  · split
    · refine (isChained_loading _ _).bind fun chained => ?_
      cases chained <;> exact .done _
    · exact .done _

theorem verifyAtPath_loading (path : Path) (verifyChain : Bool) : (s.verifyAtPath p path verifyChain).Loading := by
  rw [verifyAtPath]
  cases s.certificateParts p with
  | error verdict => exact .done _
  | ok parts =>
    refine (load_loading path).bind fun c => ?_
    cases c with
    | ok c => exact verifyUnder_loading s p _ _ c verifyChain
    | error fault => exact .done _

theorem verifyWithCertificate_loading (text : String) (verifyChain : Bool) :
    (s.verifyWithCertificate p text verifyChain).Loading := by
  rw [verifyWithCertificate]
  cases s.certificateParts p with
  | error verdict => exact .done _
  | ok parts =>
    simp only
    cases Certificate.ofText text with
    | ok c => exact verifyUnder_loading s p _ _ c verifyChain
    | error fault => exact .done _

theorem verifyOpen_loading : (s.verifyOpen p).Loading := by
  rw [verifyOpen]
  split
  · exact .done _
  · exact .done _
  · exact verifyAtPath_loading s p _ _
  · exact (verifyAtPath_loading s p _ _).bind fun _ => .done _

theorem verifyAuto_loading : (s.verifyAuto p).Loading := by
  rw [verifyAuto]
  split
  · exact .done _
  · split
    · exact .done _
    · split
      · exact verifyAtPath_loading s p _ _
      · exact .done _
    · split <;> exact .done _
    · exact verifyOpen_loading s p

theorem verifyAll_loading (ps : List Policy) : (s.verifyAll ps).Loading := by
  induction ps with
  | nil => exact .done _
  | cons p rest ih => exact (verifyAuto_loading s p).attempt.bind fun _ => ih.bind fun _ => .done _

end Service

/-! ## Runs -/

/-- What a node can be asked for. -/
inductive Request where
  | load (path : Path)
  | loadKey
  | loadHierarchy
  | validate
  | isChained (leaf : Certificate)
  | isTextChained (text : String)
  | list
  | signWithDefault (p : Policy)
  | verifyWithDefault (p : Policy)
  | verifyWithCertificate (p : Policy) (text : String) (verifyChain : Bool)
  | verifyAuto (p : Policy)
  | verifyAll (ps : List Policy)

inductive Event where
  | request (r : Request)
  | clear
  /-- The source becomes another one: texts are put or removed, reading fails or works again. -/
  | change (source : Source)
  | advance (millis : Nat)

/-- A node whose store is opened with nothing in the cache. -/
structure Opening where
  config : TrustConfig
  node : Service
  source : Source
  now : Time.Instant

namespace Opening

variable (o : Opening)

def store : Store := { source := o.source, ttl := o.config.ttl, now := o.now, cache := [] }

/-- The store after a request, whatever came of it. -/
def serve (s : Store) : Request → Store
  | .load path => ((load path).run s).2
  | .loadKey => ((loadKey o.node.paths.signingKey).run s).2
  | .loadHierarchy => ((loadHierarchy o.node.paths).run s).2
  | .validate => ((validate o.node.paths o.config.skew).run s).2
  | .isChained leaf => ((isChained o.node.paths leaf).run s).2
  | .isTextChained text => ((isTextChained o.node.paths text).run s).2
  | .list => ((list o.node.paths).run s).2
  | .signWithDefault p => ((o.node.signWithDefault p).run s).2
  | .verifyWithDefault p => ((o.node.verifyWithDefault p).run s).2
  | .verifyWithCertificate p text verifyChain => ((o.node.verifyWithCertificate p text verifyChain).run s).2
  | .verifyAuto p => ((o.node.verifyAuto p).run s).2
  | .verifyAll ps => ((o.node.verifyAll ps).run s).2

/-- The work that a request asks for. -/
def work : Request → (α : Type) × Work α
  | .load path => ⟨_, load path⟩
  | .loadKey => ⟨_, loadKey o.node.paths.signingKey⟩
  | .loadHierarchy => ⟨_, loadHierarchy o.node.paths⟩
  | .validate => ⟨_, validate o.node.paths o.config.skew⟩
  | .isChained leaf => ⟨_, isChained o.node.paths leaf⟩
  | .isTextChained text => ⟨_, isTextChained o.node.paths text⟩
  | .list => ⟨_, list o.node.paths⟩
  | .signWithDefault p => ⟨_, o.node.signWithDefault p⟩
  | .verifyWithDefault p => ⟨_, o.node.verifyWithDefault p⟩
  | .verifyWithCertificate p text verifyChain => ⟨_, o.node.verifyWithCertificate p text verifyChain⟩
  | .verifyAuto p => ⟨_, o.node.verifyAuto p⟩
  | .verifyAll ps => ⟨_, o.node.verifyAll ps⟩

def step (s : Store) : Event → Store
  | .request r => o.serve s r
  | .clear => s.cleared
  | .change source => { s with source }
  | .advance millis => { s with now := ⟨s.now.millis + millis⟩ }

/-- The store after some events. -/
def after (es : List Event) : Store := es.foldl o.step o.store

variable {o} {s : Store} {es : List Event} {e : CacheEntry}

theorem after_concat (es : List Event) (event : Event) : o.after (es ++ [event]) = o.step (o.after es) event := by
  rw [after, List.foldl_append]
  rfl

/-! ## One event -/

theorem serve_eq (s : Store) (r : Request) : o.serve s r = ((o.work r).2.run s).2 := by
  cases r <;> simp only [serve, work]

/-- All that is asked for is put together from loads. -/
theorem work_loading (r : Request) : (o.work r).2.Loading := by
  cases r <;> simp only [work]
  case load path => exact load_loading path
  case loadKey => exact loadKey_loading _
  case loadHierarchy => exact loadHierarchy_loading _
  case validate => exact validate_loading _ _
  case isChained leaf => exact isChained_loading _ leaf
  case isTextChained text => exact isTextChained_loading _ text
  case list => exact list_loading _
  case signWithDefault p => exact o.node.signWithDefault_loading p
  case verifyWithDefault p => exact o.node.verifyAtPath_loading p _ _
  case verifyWithCertificate p text verifyChain => exact o.node.verifyWithCertificate_loading p text verifyChain
  case verifyAuto p => exact o.node.verifyAuto_loading p
  case verifyAll ps => exact o.node.verifyAll_loading ps

theorem serve_eq_afterLoads (s : Store) (r : Request) : ∃ paths, o.serve s r = s.afterLoads paths := by
  rw [serve_eq]
  exact (work_loading r).loadsOnly s

theorem ttl_step (s : Store) (event : Event) : (o.step s event).ttl = s.ttl := by
  cases event with
  | request r =>
    obtain ⟨paths, hpaths⟩ := serve_eq_afterLoads (o := o) s r
    rw [step, hpaths]
    exact (afterLoads_keeps s paths).2.1
  | _ => rfl

theorem now_le_step (s : Store) (event : Event) : s.now.millis ≤ (o.step s event).now.millis := by
  cases event with
  | request r =>
    obtain ⟨paths, hpaths⟩ := serve_eq_afterLoads (o := o) s r
    obtain ⟨-, -, hnow⟩ := afterLoads_keeps s paths
    rw [step, hpaths]
    exact Int.le_of_eq (congrArg Time.Instant.millis hnow.symm)
  | advance millis => exact Int.le_add_of_nonneg_right (Int.natCast_nonneg _)
  | _ => exact Int.le_refl _

/-- After an event that is no clearing, an entry was there before or was read in it. -/
theorem mem_cache_step {event : Event} (h : e ∈ (o.step s event).cache) :
    event ≠ .clear ∧ (e ∈ s.cache ∨ e.ReadIn s) := by
  cases event with
  | request r =>
    obtain ⟨paths, hpaths⟩ := serve_eq_afterLoads (o := o) s r
    rw [step, hpaths] at h
    exact ⟨nofun, mem_cache_afterLoads h⟩
  | clear => cases h
  | change source => exact ⟨nofun, Or.inl h⟩
  | advance millis => exact ⟨nofun, Or.inl h⟩

/-! ## Any number of events -/

theorem ttl_after (es : List Event) : (o.after es).ttl = o.config.ttl := by
  induction es using List.reverseRecOn with
  | nil => rfl
  | append_singleton es event ih => rw [after_concat, ttl_step, ih]

theorem now_after_le (es₁ es₂ : List Event) : (o.after es₁).now.millis ≤ (o.after (es₁ ++ es₂)).now.millis := by
  induction es₂ using List.reverseRecOn with
  | nil => simp
  | append_singleton es₂ event ih =>
    rw [← List.append_assoc, after_concat]
    exact Int.le_trans ih (now_le_step _ event)

/-- The entry was read at a moment of the run, and the cache has not been cleared since. -/
def ReadDuring (o : Opening) (es : List Event) (e : CacheEntry) : Prop :=
  ∃ es₁ es₂, es = es₁ ++ es₂ ∧ .clear ∉ es₂ ∧ e.ReadIn (o.after es₁)

theorem readDuring_of_mem (h : e ∈ (o.after es).cache) : o.ReadDuring es e := by
  induction es using List.reverseRecOn with
  | nil => cases h
  | append_singleton es event ih =>
    rw [after_concat] at h
    obtain ⟨hevent, h⟩ := mem_cache_step h
    have hlast : .clear ∉ [event] := fun hmem => hevent (List.mem_singleton.mp hmem).symm
    rcases h with h | hread
    · obtain ⟨es₁, es₂, rfl, hclear, hread⟩ := ih h
      exact ⟨es₁, es₂ ++ [event], List.append_assoc _ _ _, List.not_mem_append hclear hlast, hread⟩
    · exact ⟨es, [event], rfl, hlast, hread⟩

/-! ## Loading at the end of a run -/

/-- The moment after `es₁` is at most as long ago, at the end of the run, as entries are kept. -/
structure Recent (o : Opening) (es es₁ es₂ : List Event) : Prop where
  split : es = es₁ ++ es₂
  since : (o.after es).now.millis - o.config.ttl.millis ≤ (o.after es₁).now.millis
  upTo : (o.after es₁).now.millis ≤ (o.after es).now.millis

theorem recent_now (o : Opening) (es : List Event) : o.Recent es es [] := by
  have httl := o.config.ttl_nonneg
  exact ⟨(List.append_nil es).symm, by omega, Int.le_refl _⟩

/-- A certificate that the cache gives was read at a recent moment. -/
theorem recent_of_lookup {path : Path} {c : Certificate} (h : (o.after es).evicted.cache.lookup path = some c) :
    ∃ es₁ es₂ q text, o.Recent es es₁ es₂ ∧ .clear ∉ es₂ ∧ q.same path = true ∧
      (o.after es₁).source q = .text text ∧ Certificate.ofTextAt path text = .ok c := by
  obtain ⟨e, he, hsame, rfl⟩ := mem_of_lookup h
  obtain ⟨hmem, hkept⟩ := mem_evict.mp he
  obtain ⟨es₁, es₂, rfl, hclear, hloaded, text, hsource, hread⟩ := readDuring_of_mem hmem
  rw [ttl_after, hloaded] at hkept
  have hrecent : o.Recent (es₁ ++ es₂) es₁ es₂ := ⟨rfl, by omega, now_after_le es₁ es₂⟩
  exact ⟨es₁, es₂, e.path, text, hrecent, hclear, hsame, hsource, Certificate.ofTextAt_eq_ok hread⟩

/-- A certificate that is loaded was in a text that the source had for the path, or for one with the same parts, at a
recent moment of the run since the last clearing. Where the source has had the same answer for all these paths since
entries of the cache may be from, the result is that of a store without them. -/
theorem load_staleness (o : Opening) (es : List Event) (path : Path) :
    (∀ c, ((load path).run (o.after es)).1 = some (.ok c) →
      ∃ es₁ es₂ q text, o.Recent es es₁ es₂ ∧ .clear ∉ es₂ ∧ q.same path = true ∧
        (o.after es₁).source q = .text text ∧ Certificate.ofTextAt path text = .ok c) ∧
    ((∀ es₁ es₂ q, o.Recent es es₁ es₂ → q.same path = true → (o.after es₁).source q = (o.after es).source path) →
      ((load path).run (o.after es)).1 = ((load path).run (o.after es).cleared).1) := by
  rw [run_load_cleared]
  cases hlookup : (o.after es).evicted.cache.lookup path with
  | some c =>
    have hresult : ((load path).run (o.after es)).1 = some (.ok c) := by rw [run_load, hlookup]
    obtain ⟨es₁, es₂, q, text, hrecent, hclear, hsame, hsource, hread⟩ := recent_of_lookup hlookup
    rw [hresult]
    refine ⟨fun d hd => ?_, fun hconstant => ?_⟩
    · cases hd
      exact ⟨es₁, es₂, q, text, hrecent, hclear, hsame, hsource, hread⟩
    · rw [← hconstant es₁ es₂ q hrecent hsame, hsource, outcome, hread]
  | none =>
    rw [result_of_lookup_eq_none hlookup]
    refine ⟨fun c hc => ?_, fun _ => rfl⟩
    obtain ⟨-, text, hsource, hread⟩ := readIn_of_outcome hc
    exact ⟨es, [], path, text, o.recent_now es, List.not_mem_nil, beq_self_eq_true _, hsource, hread⟩

/-! ## Paths with the same parts -/

theorem rootCertificate_read (path : Path) : Certificate.ofTextAt path rootCertificate.text = .ok rootCertificate := by
  have hdocuments : Certificate.documents? (Text.utf8 (Text.trim rootCertificate.text)) = some [rootDocument] := by
    rw [Certificate.text, Text.utf8, Text.trim, Text.ofAscii, String.toList_ofList, String.toList_ofList]
    decide +kernel
  have hkey : rootDocument.statement.key.rsa? = .ok rootKey := by
    have hnumbers : X509.KeyInfo.numbers? rootDocument.statement.key.bits = some rootKey := by decide +kernel
    have hbits : ¬ X509.KeyInfo.maxBits < rootKey.bits := by decide +kernel
    have hsound : rootKey.isSound = true := by decide +kernel
    rw [X509.KeyInfo.rsa?, if_neg (fun h => h rfl), hnumbers]
    simp only [if_neg hbits, hsound]
    rfl
  rw [Certificate.ofTextAt, hdocuments]
  simp only [Certificate.ofDocument, hkey]
  rfl

/-- A directory with one file. -/
def oneFile (text : String) : FileTree where
  here := ["work"]
  entries := [(["work"], .directory), (["work", "a.crt"], .file (Text.utf8 text) false)]

/-- A node that reads from that directory. -/
def filesOpening (text : String) : Opening where
  config := {}
  node := ⟨{}, .under ⟨"certs"⟩⟩
  source := (oneFile text).source
  now := ⟨1735700000000⟩

/-- Where a node has its certificates that uses that file for each of them, under these names. -/
def oneFilePaths (root intermediate : Path) : TrustPaths :=
  { TrustPaths.under ⟨"certs"⟩ with rootCert := root, intermediateCert := intermediate, signingCert := ⟨"a.crt"⟩ }

theorem oneFile_source (text : String) : (oneFile text).source ⟨"a.crt"⟩ = .text text := by
  have hread : ∀ content, FileTree.read ⟨["work"], [(["work"], .directory), (["work", "a.crt"], .file content false)]⟩
      ⟨"a.crt"⟩ = .ok content := fun _ => rfl
  have htext : (oneFile text).readText ⟨"a.crt"⟩ = .ok text := by
    simp only [FileTree.readText, oneFile, hread, bind, Except.bind, Text.ofUtf8?_utf8]
    rfl
  rw [FileTree.source, htext]

theorem oneFile_source_directory (text : String) :
    (oneFile text).source ⟨"a.crt/"⟩ = .failed "Not a directory (os error 20)" := rfl

/-- The store after the file was loaded. -/
theorem filesOpening_after {text : String} {c : Certificate} (h : Certificate.ofTextAt ⟨"a.crt"⟩ text = .ok c) :
    (filesOpening text).after [.request (.load ⟨"a.crt"⟩)]
      = (filesOpening text).store.evicted.keeping ⟨⟨"a.crt"⟩, c, (filesOpening text).now⟩ := by
  have hrun : (filesOpening text).after [.request (.load ⟨"a.crt"⟩)]
      = ((load ⟨"a.crt"⟩).run (filesOpening text).store).2 := rfl
  have hsource : (filesOpening text).store.source ⟨"a.crt"⟩ = .text text := oneFile_source text
  have hlookup : (filesOpening text).store.evicted.cache.lookup ⟨"a.crt"⟩ = none := rfl
  rw [hrun, run_load, hlookup]
  simp only [hsource, outcome, h]
  rfl

/-- A path that cannot be read, as it ends like that of a directory, is served from the cache. -/
theorem other_spelling_served :
    ((load ⟨"a.crt/"⟩).run ((filesOpening rootCertificate.text).after [.request (.load ⟨"a.crt"⟩)])).1
        = some (.ok rootCertificate) ∧
      (∀ es₁ es₂, [Event.request (.load ⟨"a.crt"⟩)] = es₁ ++ es₂ →
        ((filesOpening rootCertificate.text).after es₁).source ⟨"a.crt/"⟩ = .failed "Not a directory (os error 20)") ∧
      ((load ⟨"a.crt/"⟩).run ((filesOpening rootCertificate.text).after [.request (.load ⟨"a.crt"⟩)]).cleared).1
        = some (.error (.unreadable ⟨"a.crt/"⟩ "Not a directory (os error 20)")) := by
  have hserved : ∀ {text : String} {c : Certificate}, Certificate.ofTextAt ⟨"a.crt"⟩ text = .ok c →
      ((filesOpening text).after [.request (.load ⟨"a.crt"⟩)]).evicted.cache.lookup ⟨"a.crt/"⟩ = some c := by
    intro text c h
    have hsame : Path.same ⟨"a.crt"⟩ ⟨"a.crt/"⟩ = true := by decide +kernel
    have hkept : Cache.isStale (filesOpening text).config.ttl (filesOpening text).now
        ⟨⟨"a.crt"⟩, c, (filesOpening text).now⟩ = false := rfl
    rw [filesOpening_after h]
    simp [Store.evicted, Store.keeping, Cache.insert, Cache.evict, Cache.lookup, store, hsame, hkept]
  have hafter := filesOpening_after (rootCertificate_read ⟨"a.crt"⟩)
  have hfailed := oneFile_source_directory rootCertificate.text
  refine ⟨?_, fun es₁ es₂ hes => ?_, ?_⟩
  · rw [run_load, hserved (rootCertificate_read _)]
  · rcases List.append_eq_singleton_iff.mp hes.symm with ⟨rfl, -⟩ | ⟨rfl, -⟩
    · exact hfailed
    · rw [hafter]
      exact hfailed
  · rw [run_load_cleared, hafter]
    exact congrArg (outcome ⟨"a.crt/"⟩) hfailed

end Opening

end PolicySeal
