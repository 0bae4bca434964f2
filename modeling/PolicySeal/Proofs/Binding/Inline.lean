import PolicySeal.Proofs.Binding.Separation
import PolicySeal.Proofs.Binding.Staleness
import PolicySeal.Proofs.Trust.Answers
/-
  PolicySeal.Proofs.Binding.Inline — a certificate given as text, and the same one loaded.

  A signature can be verified under a certificate that is given as text, under the configured
  one, and under that of the node. Where the file has that text, the three come to the same
  verdict (`certificate_ways_agree`): to load the certificate first changes none of the answers
  that the check of its chain asks for. This needs that the source tells none of these paths from
  the one of the file if the cache does not (`Path.same`): a file name with a separator at its end
  cannot be read, and yet is served once the file was loaded (`loading_first_chains`).
-/

namespace PolicySeal.Service

open Trust

variable {s : Service} {p : Policy} {store : Store} {path : Path} {text : String} {c : Certificate} {h : Hash}
  {v : Bytes} {block : SignatureBlock} {verifyChain : Bool} {asked : List Path}

/-! ## Results -/

/-- Within the dates of the certificate, its chain decides whether the signature is looked at. -/
theorem result_verifyUnder {linked : Bool} (hdates : c.isValidAt store.now = true)
    (hchained : ((isChained s.paths c).run store).1 = some linked) :
    ((s.verifyUnder p h v c true).run store).1
      = some (if linked then keyVerdict p h v c
        else .failed .x509 .chainValidation "Certificate chain validation failed") := by
  rw [verifyUnder, Work.run_clock, hdates]
  refine Work.run_bind_eq_some_iff.mpr ⟨linked, _, Prod.ext hchained rfl, ?_⟩
  cases linked <;> rfl

theorem result_verifyAtPath (hparts : s.certificateParts p = .ok (h, v)) (hpath : store.answer path = some (.ok c)) :
    ((s.verifyAtPath p path verifyChain).run store).1
      = ((s.verifyUnder p h v c verifyChain).run ((load path).run store).2).1 := by
  have hrun : (load path).run store = (some (.ok c), ((load path).run store).2) :=
    Prod.ext ((result_load _ _).trans hpath) rfl
  simp only [verifyAtPath, hparts]
  rw [Work.run_bind, hrun]

/-! ## Loading first -/

theorem respects_verifyUnder (hasked : verifyChain = true → s.paths.intermediateCert ∈ asked ∧ s.paths.rootCert ∈ asked) :
    (s.verifyUnder p h v c verifyChain).Respects asked := by
  rw [verifyUnder]
  refine Work.respects_clock fun now => ?_
  by_cases hdates : c.isValidAt now = true
  · rw [if_neg (by simp [hdates])]
    by_cases hchain : verifyChain = true
    · obtain ⟨hintermediate, hroot⟩ := hasked hchain
      rw [if_pos hchain]
      refine (respects_isChained hintermediate hroot c).bind fun linked => ?_
      cases linked with
      | true => exact Work.respects_done _
      | false => exact Work.respects_done _
    · rw [if_neg hchain]
      exact Work.respects_done _
  · rw [if_pos (by simp [hdates])]
    exact Work.respects_done _

theorem verifyWithCertificate_ends : (s.verifyWithCertificate p text verifyChain).Ends := by
  have hway : s.verifyBy p (.certificate text verifyChain) = s.verifyWithCertificate p text verifyChain := rfl
  rw [← hway]
  exact verifyBy_ends _

/-- Of two services with the same paths, each looks at a signature under a certificate as the other does. -/
theorem verifyUnder_of_paths {t : Service} (hpaths : t.paths = s.paths) : t.verifyUnder p = s.verifyUnder p := by
  funext hash signature certificate flag
  rw [verifyUnder, verifyUnder, hpaths]

theorem certificateParts_of_x509 (hblock : p.signature = some block) (halgorithm : block.algorithm = h.x509Name)
    (t : Service) : t.certificateParts p = s.certificateParts p := by
  simp only [certificateParts, hblock, halgorithm, Policy.ofName?_x509Name]

/-- The source has the text of the certificate at the path, and the cache no other certificate for it. -/
structure Holds (store : Store) (path : Path) (text : String) (c : Certificate) : Prop where
  source : store.source path = .text text
  parsed : Certificate.ofText text = .ok c
  cached : ∀ e ∈ store.cache, e.path.same path = true → e.certificate = c

/-- The paths that are read as this one is are answered with the certificate. -/
theorem Holds.answer (hholds : Holds store path text c) {other : Path} (hsame : path.same other = true)
    (hsource : store.source other = store.source path) : store.answer other = some (.ok c) := by
  cases hlookup : store.evicted.cache.lookup other with
  | some d =>
    obtain ⟨e, he, heo, rfl⟩ := mem_of_lookup hlookup
    have hpath : e.path.same path = true := Path.same_trans heo (Path.same_symm hsame)
    rw [Store.answer_of_lookup hlookup, hholds.cached e (mem_evict.mp he).1 hpath]
  | none =>
    rw [Store.answer_of_lookup_eq_none hlookup, hsource, hholds.source, outcome,
      Certificate.ofTextAt_eq_ok hholds.parsed]

/-- A signature is verified under a certificate from a file as it is under the text of that file. -/
theorem Holds.result_verifyAtPath (hholds : Holds store path text c)
    (hspelled : verifyChain = true → ∀ other ∈ [s.paths.intermediateCert, s.paths.rootCert],
      path.same other = true → store.source other = store.source path) :
    ((s.verifyAtPath p path verifyChain).run store).1 = ((s.verifyWithCertificate p text verifyChain).run store).1 := by
  have hanswer : store.answer path = some (.ok c) := hholds.answer (Path.same_self path) rfl
  cases hparts : s.certificateParts p with
  | error verdict => simp only [verifyAtPath, verifyWithCertificate, hparts]
  | ok parts =>
    obtain ⟨h, v⟩ := parts
    rw [Service.result_verifyAtPath hparts hanswer]
    simp only [verifyWithCertificate, hparts, hholds.parsed]
    let asked : List Path := if verifyChain then [s.paths.intermediateCert, s.paths.rootCert] else []
    have hasked : verifyChain = true → s.paths.intermediateCert ∈ asked ∧ s.paths.rootCert ∈ asked := by
      rintro rfl
      exact ⟨List.mem_cons_self, List.mem_cons_of_mem _ List.mem_cons_self⟩
    have halike : store.AlikeOn asked ((load path).run store).2 := by
      refine alikeOn_after_load fun d hd _ other hother hsame => ?_
      rw [← hd, hanswer]
      refine hholds.answer hsame ?_
      by_cases hchain : verifyChain = true
      · exact hspelled hchain other (by simpa [asked, hchain] using hother) hsame
      · simp [asked, hchain] at hother
    exact (respects_verifyUnder hasked _ _ halike).1.symm

/-- A signature by certificate is verified in the same way, with the same verdict in every part of it, under the text
of a certificate, under the configured file where that is the text, and under the certificate of the node where that is
the file; provided that the check of the chain, where it is made, does not read another path with the parts of that file
otherwise than the file. -/
theorem certificate_ways_agree (p : Policy) (block : SignatureBlock) (h : Hash) (path : Path) (text : String)
    (c : Certificate) (store : Store) (paths : TrustPaths) (verifyChain : Bool) (hblock : p.signature = some block)
    (halgorithm : block.algorithm = h.x509Name) (hholds : Holds store path text c)
    (hspelled : verifyChain = true → ∀ other ∈ [paths.intermediateCert, paths.rootCert],
      path.same other = true → store.source other = store.source path) :
    ∀ given configured node : Service, given.paths = paths → configured.paths = paths → node.paths = paths →
      configured.config.certificatePath = some path → configured.config.verifyChain = verifyChain →
      ((given.verifyWithCertificate p text verifyChain).run store).1 = ((configured.verifyAuto p).run store).1 ∧
      (paths.signingCert = path → verifyChain = true →
        ((given.verifyWithCertificate p text verifyChain).run store).1 = ((node.verifyWithDefault p).run store).1) ∧
      (store.Answers → ∃ verdict, ((given.verifyWithCertificate p text verifyChain).run store).1 = some verdict) := by
  intro given configured node hgiven hconfigured hnode hpath hflag
  have hsame : ∀ t : Service, t.paths = paths →
      t.verifyWithCertificate p text verifyChain = given.verifyWithCertificate p text verifyChain := by
    intro t ht
    rw [verifyWithCertificate, verifyWithCertificate, certificateParts_of_x509 hblock halgorithm t,
      verifyUnder_of_paths (ht.trans hgiven.symm)]
  refine ⟨?_, fun hsigning hchain => ?_, verifyWithCertificate_ends store⟩
  · have hauto : configured.verifyAuto p = configured.verifyAtPath p path verifyChain := by
      simp only [verifyAuto, hblock, halgorithm, Policy.ofName?_x509Name, hpath, verifyConfigured, hflag]
    rw [hauto, hholds.result_verifyAtPath (by rwa [hconfigured]), hsame configured hconfigured]
  · have hdefault : node.verifyWithDefault p = node.verifyAtPath p path verifyChain := by
      rw [verifyWithDefault, hnode, hsigning, hchain]
    rw [hdefault, hholds.result_verifyAtPath (by rwa [hnode]), hsame node hnode]

/-! ## A file that is named as a directory -/

/-- A value that is no signature under any key. -/
def forgedPolicy : Policy := plainPolicy.withSignature ⟨"SHA384", "AAAA", "node", "2025-01-01T00:00:00Z"⟩

/-- A node with one certificate, that has the root and the intermediate elsewhere or at that place. -/
def singleNode (issuers : Path) : Service where
  config := { certificatePath := some ⟨"a.crt"⟩ }
  paths :=
    { TrustPaths.under ⟨"certs"⟩ with rootCert := issuers, intermediateCert := issuers, signingCert := ⟨"a.crt"⟩ }

/-- The store of a directory with that file and nothing else. -/
def singleStore (text : String) : Store := (Opening.filesOpening text).store

theorem singleStore_holds (hparsed : Certificate.ofText text = .ok c) : Holds (singleStore text) ⟨"a.crt"⟩ text c where
  source := Opening.oneFile_source text
  parsed := hparsed
  cached := by
    intro e he
    have hcache : (singleStore text).cache = [] := rfl
    simp [hcache] at he

theorem answer_singleStore_directory (text : String) : (singleStore text).answer ⟨"a.crt/"⟩
    = some (.error (.unreadable ⟨"a.crt/"⟩ "Not a directory (os error 20)")) := by
  rw [Store.answer_of_lookup_eq_none rfl]
  exact congrArg (outcome ⟨"a.crt/"⟩) (Opening.oneFile_source_directory text)

theorem rootCertificate_parsed : Certificate.ofText rootCertificate.text = .ok rootCertificate :=
  Opening.rootCertificate_read _

theorem forgedPolicy_parts (issuers : Path) :
    (singleNode issuers).certificateParts forgedPolicy = .ok (.sha384, [0, 0, 0]) := rfl

theorem keyVerdict_forgedPolicy (c : Certificate) :
    keyVerdict forgedPolicy .sha384 [0, 0, 0] c = .failed .x509 .signatureMismatch "Signature verification failed" := by
  refine if_neg fun hmatches => ?_
  have hlong := Check.length_of_accepts_key
    (show Check.accepts c.key ⟨[]⟩ forgedPolicy [0, 0, 0] (.key .sha384) = true from hmatches)
  exact absurd hlong (by decide)

theorem rootCertificate_issuance : rootCertificate.issuance rootCertificate = .ok () :=
  Certificate.issuance_eq_ok_iff.mpr rootCertificate_verifiesUnder

theorem isLinked_rootCertificate : isLinked rootCertificate rootCertificate rootCertificate = true := by
  simp [isLinked, rootCertificate_issuance, isOk]

theorem intermediateCert_singleNode (issuers : Path) : (singleNode issuers).paths.intermediateCert = issuers := rfl

theorem rootCert_singleNode (issuers : Path) : (singleNode issuers).paths.rootCert = issuers := rfl

theorem isValidAt_singleStore (text : String) : rootCertificate.isValidAt (singleStore text).now = true := by
  have hnow : (singleStore text).now = ⟨1735700000000⟩ := rfl
  rw [hnow]
  decide +kernel

/-- Where root and intermediate are answered with the certificate, the chain is in order, and the value is looked at. -/
theorem result_verifyUnder_forgedPolicy {issuers : Path} (hnow : store.now = (singleStore text).now)
    (hissuers : store.answer issuers = some (.ok rootCertificate)) :
    (((singleNode issuers).verifyUnder forgedPolicy .sha384 [0, 0, 0] rootCertificate true).run store).1
      = some (.failed .x509 .signatureMismatch "Signature verification failed") := by
  have hagain : ((load issuers).run store).2.answer issuers = some (.ok rootCertificate) := by
    rw [answer_load, hissuers]
    simp
  have hintermediate : store.answer (singleNode issuers).paths.intermediateCert = some (.ok rootCertificate) := by
    rw [intermediateCert_singleNode, hissuers]
  have hroot : ((load (singleNode issuers).paths.intermediateCert).run store).2.answer
      (singleNode issuers).paths.rootCert = some (.ok rootCertificate) := by
    rw [intermediateCert_singleNode, rootCert_singleNode, hagain]
  have hchained := (result_isChained hintermediate hroot).trans (congrArg some isLinked_rootCertificate)
  have hdates : rootCertificate.isValidAt store.now = true := by rw [hnow, isValidAt_singleStore]
  rw [result_verifyUnder hdates hchained, if_pos rfl, keyVerdict_forgedPolicy]

theorem forgedPolicy_under_text (hparsed : Certificate.ofText text = .ok rootCertificate) {issuers : Path}
    (hissuers : (singleStore text).answer issuers = some (.ok rootCertificate)) :
    (((singleNode issuers).verifyWithCertificate forgedPolicy text true).run (singleStore text)).1
      = some (.failed .x509 .signatureMismatch "Signature verification failed") := by
  simp only [verifyWithCertificate, forgedPolicy_parts, hparsed]
  exact result_verifyUnder_forgedPolicy rfl hissuers

/-- The verdict is the same in each way where root and intermediate are the file itself. -/
theorem forgedPolicy_refused_in_each_way :
    Holds (singleStore rootCertificate.text) ⟨"a.crt"⟩ rootCertificate.text rootCertificate ∧
      (((singleNode ⟨"a.crt"⟩).verifyWithCertificate forgedPolicy rootCertificate.text true).run
        (singleStore rootCertificate.text)).1
        = some (.failed .x509 .signatureMismatch "Signature verification failed") ∧
      (((singleNode ⟨"a.crt"⟩).verifyAuto forgedPolicy).run (singleStore rootCertificate.text)).1
        = some (.failed .x509 .signatureMismatch "Signature verification failed") ∧
      (((singleNode ⟨"a.crt"⟩).verifyWithDefault forgedPolicy).run (singleStore rootCertificate.text)).1
        = some (.failed .x509 .signatureMismatch "Signature verification failed") := by
  have hholds := singleStore_holds rootCertificate_parsed
  have hgiven := forgedPolicy_under_text rootCertificate_parsed (hholds.answer (Path.same_self _) rfl)
  have hspelled : true = true →
      ∀ other ∈ [(singleNode ⟨"a.crt"⟩).paths.intermediateCert, (singleNode ⟨"a.crt"⟩).paths.rootCert],
        Path.same ⟨"a.crt"⟩ other = true →
          (singleStore rootCertificate.text).source other = (singleStore rootCertificate.text).source ⟨"a.crt"⟩ := by
    intro _ other hother _
    obtain rfl : other = ⟨"a.crt"⟩ := by simpa [singleNode] using hother
    rfl
  obtain ⟨hauto, hdefault, -⟩ := certificate_ways_agree forgedPolicy _ .sha384 _ _ _ _ _ true rfl rfl hholds hspelled
    (singleNode ⟨"a.crt"⟩) (singleNode ⟨"a.crt"⟩) (singleNode ⟨"a.crt"⟩) rfl rfl rfl rfl rfl
  exact ⟨hholds, hgiven, hauto.symm.trans hgiven, (hdefault rfl rfl).symm.trans hgiven⟩

/-- Under a name that ends like that of a directory the file cannot be read. -/
theorem chain_fails_under_text (hparsed : Certificate.ofText text = .ok rootCertificate) :
    (((singleNode ⟨"a.crt/"⟩).verifyWithCertificate forgedPolicy text true).run (singleStore text)).1
      = some (.failed .x509 .chainValidation "Certificate chain validation failed") := by
  have hfault : (singleStore text).answer (singleNode ⟨"a.crt/"⟩).paths.intermediateCert
      = some (.error (.unreadable ⟨"a.crt/"⟩ "Not a directory (os error 20)")) := by
    rw [intermediateCert_singleNode, answer_singleStore_directory]
  simp only [verifyWithCertificate, forgedPolicy_parts, hparsed]
  rw [result_verifyUnder (isValidAt_singleStore _) (result_isChained_of_fault hfault)]
  rfl

/-- Once it was loaded, its certificate is found under that name. -/
theorem chain_passes_under_file (hparsed : Certificate.ofText text = .ok rootCertificate) :
    (((singleNode ⟨"a.crt/"⟩).verifyAuto forgedPolicy).run (singleStore text)).1
      = some (.failed .x509 .signatureMismatch "Signature verification failed") := by
  have hfile : (singleStore text).answer ⟨"a.crt"⟩ = some (.ok rootCertificate) :=
    (singleStore_holds hparsed).answer (Path.same_self _) rfl
  have hsame : Path.same ⟨"a.crt"⟩ ⟨"a.crt/"⟩ = true := by decide +kernel
  have httl : 0 ≤ (singleStore text).ttl.millis := TrustConfig.ttl_nonneg {}
  have hserved : ((load ⟨"a.crt"⟩).run (singleStore text)).2.answer ⟨"a.crt/"⟩ = some (.ok rootCertificate) := by
    rw [answer_load, hfile]
    exact if_pos ⟨hsame, httl⟩
  have hauto : (singleNode ⟨"a.crt/"⟩).verifyAuto forgedPolicy
      = (singleNode ⟨"a.crt/"⟩).verifyAtPath forgedPolicy ⟨"a.crt"⟩ true := rfl
  obtain ⟨-, -, hnow⟩ := Work.run_keeps (load ⟨"a.crt"⟩) (singleStore text)
  rw [hauto, result_verifyAtPath (forgedPolicy_parts _) hfile]
  exact result_verifyUnder_forgedPolicy hnow hserved

/-- So the check of the chain fails under the text, and passes under the file that holds this text. -/
theorem loading_first_chains :
    Holds (singleStore rootCertificate.text) ⟨"a.crt"⟩ rootCertificate.text rootCertificate ∧
      (((singleNode ⟨"a.crt/"⟩).verifyWithCertificate forgedPolicy rootCertificate.text true).run
        (singleStore rootCertificate.text)).1
          = some (.failed .x509 .chainValidation "Certificate chain validation failed") ∧
      (((singleNode ⟨"a.crt/"⟩).verifyAuto forgedPolicy).run (singleStore rootCertificate.text)).1
          = some (.failed .x509 .signatureMismatch "Signature verification failed") :=
  ⟨singleStore_holds rootCertificate_parsed, chain_fails_under_text rootCertificate_parsed,
    chain_passes_under_file rootCertificate_parsed⟩

end PolicySeal.Service
