import PolicySeal.Proofs.Binding.Batch
import PolicySeal.Proofs.Binding.Staleness
import PolicySeal.Proofs.Trust.Consistency
/-
  PolicySeal.Proofs.Binding.Consistency — the cache of a node after whatever it is asked for.

  A node leaves its cache consistent, whether it succeeds or fails, and in a batch whatever its
  tasks have done so far (`cache_consistent`). A path that could not be read has no entry that
  was read from it. It is found in the cache all the same if the file was read under another
  name in the meantime, as entries are found by the parts of a path (`unread_path_found`).
-/

namespace PolicySeal

open Trust

/-- Tasks keep the cache consistent. -/
theorem Service.tidy_kept (s : Service) {X : Store} (httl : 0 ≤ X.ttl.millis) :
    Batch.Kept s X.Within (fun store w => w.Tidy X store.cache) fun _ => True where
  spawn store p := (s.verifyAuto_loading p).tidy X store.cache
  act hstore hw hnext := by
    obtain ⟨hstore', hfresh, hw'⟩ := hw.next hstore httl hnext
    exact ⟨hstore', hw', fun u hu => hu.others hfresh⟩
  finish _ _ _ := trivial

namespace Opening

/-- The store of a node with anything in its cache. -/
def storeWith (o : Opening) (cache : Cache) : Store := { o.store with cache }

/-- What is looked up for a request, and what is found. -/
def lookups (o : Opening) (s : Store) (r : Request) : List (Path × Option Certificate) := (o.work r).2.lookups s

/-- Whatever a node is asked for, with anything in its cache, and whether it succeeds or fails: each entry is there
afterwards under its own path; it was there before, or was read and parsed now; only old entries have gone, and none of
them is left if anything was to be loaded. A path that was to be loaded and gave no certificate has no entry; one that
is found for it was read now, under another spelling of it. A document that is absent is reported as such, any other
failure to read it as that, with its path. So it is with a batch at any moment. -/
theorem cache_consistent (o : Opening) (cache : Cache) (r : Request) :
    let before := o.storeWith cache
    let after := o.serve before r
    let asked := o.lookups before r
    before.Consistent after.cache ∧
    (before.cache.Distinct → ∀ e ∈ after.cache, after.cache.lookup e.path = some e.certificate) ∧
    (asked ≠ [] → ∀ e ∈ after.cache, before.Fresh e) ∧
    (∀ path, (path, none) ∈ asked → (∀ c, outcome path (before.source path) ≠ some (.ok c)) →
      ∀ e ∈ after.cache, e.path.same path = true → e ∉ before.cache ∧ e.ReadIn before ∧ e.path ≠ path) ∧
    (∀ path, before.Lacks path →
      (before.source path = .absent → ((load path).run before).1 = some (.error (.certificateNotFound path))) ∧
      ∀ message, before.source path = .failed message →
        ((load path).run before).1 = some (.error (.unreadable path message))) ∧
    ∀ ps b, Relation.ReflTransGen o.node.Step (.start before ps) b → before.Consistent b.store.cache := by
  intro before after asked
  have httl : 0 ≤ before.ttl.millis := o.config.ttl_nonneg
  have hafter : after = ((o.work r).2.run before).2 := serve_eq before r
  have htidy : (o.work r).2.Tidy before before.cache := (work_loading r).tidy before before.cache
  obtain ⟨hwithin, hfresh, hlacks⟩ := htidy.run before.within_self httl
  rw [← hafter] at hwithin hfresh
  refine ⟨hwithin.consistent, ?_, fun hasked => hfresh (Or.inr hasked), ?_, ?_, ?_⟩
  · intro hdistinct e he
    exact (hwithin.consistent.distinct hdistinct).lookup he
  · intro path hpath hunread e he hsame
    have hasked : asked ≠ [] := List.ne_nil_of_mem hpath
    exact hwithin.consistent.of_unread (hfresh (Or.inr hasked)) (hlacks path hpath) hunread he hsame
  · intro path hpath
    have hresult : ((load path).run before).1 = outcome path (before.source path) :=
      result_of_lookup_eq_none hpath.lookup_evicted
    exact ⟨fun habsent => by rw [hresult, habsent, outcome], fun message hfailed => by rw [hresult, hfailed, outcome]⟩
  · intro ps b hrun
    have hhas := (o.node.tidy_kept httl).run before.within_self hrun
    exact hhas.store.consistent

/-- An entry that has been kept for more than a day. -/
def oldEntry : CacheEntry := ⟨⟨"b.crt"⟩, rootCertificate, ⟨1735600000000⟩⟩

/-- A load that fails, and drops that entry. -/
theorem oldEntry_dropped_by_failure :
    let before := (filesOpening "").storeWith [oldEntry]
    (⟨"a.crt/"⟩, none) ∈ (filesOpening "").lookups before (.load ⟨"a.crt/"⟩) ∧ ¬ before.Fresh oldEntry ∧
      ((load ⟨"a.crt/"⟩).run before).1 = some (.error (.unreadable ⟨"a.crt/"⟩ "Not a directory (os error 20)")) ∧
      oldEntry ∉ ((filesOpening "").serve before (.load ⟨"a.crt/"⟩)).cache := by
  intro before
  have hold : ¬ before.Fresh oldEntry := by
    show ¬ (1735700000000 - 1735600000000 : Int) ≤ (filesOpening "").config.ttl.millis
    decide
  have hlacks : before.Lacks ⟨"a.crt/"⟩ := by
    intro e he hfresh
    rw [List.mem_singleton.mp he] at hfresh
    exact absurd hfresh hold
  have hfailed : before.source ⟨"a.crt/"⟩ = .failed "Not a directory (os error 20)" := by
    have hsource : before.source = (oneFile "").source := rfl
    rw [hsource, oneFile_source_directory]
  have hmissed : (⟨"a.crt/"⟩, none) ∈ (filesOpening "").lookups before (.load ⟨"a.crt/"⟩) := by
    have hlookup := mem_lookups_load ⟨"a.crt/"⟩ before
    rwa [hlacks.lookup_evicted] at hlookup
  obtain ⟨-, -, hfresh, -, hreported, -⟩ := cache_consistent (filesOpening "") [oldEntry] (.load ⟨"a.crt/"⟩)
  refine ⟨hmissed, hold, (hreported _ hlacks).2 _ hfailed, ?_⟩
  intro hmem
  exact hold (hfresh (List.ne_nil_of_mem hmissed) oldEntry hmem)

/-! ## A file under two names -/

/-- A node that has its root in the same file as the others, under a name like that of a directory. -/
def twoNamesOpening (text : String) : Opening :=
  { filesOpening text with node := ⟨{}, oneFilePaths ⟨"a.crt/"⟩ ⟨"a.crt"⟩⟩ }

theorem run_summaries_cons {now : Time.Instant} {tier : Tier} {path : Path} {rest : List (Tier × Path)} {s t : Store}
    {result : Except Fault Certificate} (h : (load path).run s = (some result, t)) :
    ((summaries now ((tier, path) :: rest)).run s).2 = ((summaries now rest).run t).2 := by
  rw [summaries, Work.run_bind, h]
  simp only [Work.run_bind]
  split
  · rename_i hrest
    rw [hrest]
    rfl
  · rename_i hrest
    rw [hrest]

theorem mem_lookups_list (paths : TrustPaths) (s : Store) :
    (paths.rootCert, s.evicted.cache.lookup paths.rootCert) ∈ (list paths).lookups s := by
  rw [list, Work.lookups, tiers, summaries, Work.lookups_bind]
  exact List.mem_append_left _ (mem_lookups_load _ s)

/-- Listing cannot read the root, as its name says that it is a directory; it then reads the file under its name. -/
theorem serve_list_twoNames {text : String} {c : Certificate} (h : Certificate.ofTextAt ⟨"a.crt"⟩ text = .ok c) :
    (twoNamesOpening text).serve (twoNamesOpening text).store .list
      = (twoNamesOpening text).store.keeping ⟨⟨"a.crt"⟩, c, (twoNamesOpening text).now⟩ := by
  let s : Store := (twoNamesOpening text).store
  let t : Store := s.keeping ⟨⟨"a.crt"⟩, c, s.now⟩
  have hread : outcome ⟨"a.crt"⟩ (s.source ⟨"a.crt"⟩) = some (.ok c) := by
    have hsource : s.source ⟨"a.crt"⟩ = .text text := oneFile_source text
    rw [hsource, outcome, h]
  have hnone : ∀ path, s.evicted.cache.lookup path = none := fun _ => rfl
  have hroot : (load ⟨"a.crt/"⟩).run s
      = (some (.error (.unreadable ⟨"a.crt/"⟩ "Not a directory (os error 20)")), s) := by
    have hfailed : s.source ⟨"a.crt/"⟩ = .failed "Not a directory (os error 20)" := oneFile_source_directory text
    rw [run_load, hnone, hfailed]
    rfl
  have hintermediate : (load ⟨"a.crt"⟩).run s = (some (.ok c), t) := by
    rw [run_load, hnone, hread]
    rfl
  have hsigning : (load ⟨"a.crt"⟩).run t = (some (.ok c), t) := run_load_again hintermediate
  have htiers : tiers (twoNamesOpening text).node.paths
      = [(.root, ⟨"a.crt/"⟩), (.intermediate, ⟨"a.crt"⟩), (.signing, ⟨"a.crt"⟩)] := rfl
  rw [serve, list, Work.run_clock, htiers, run_summaries_cons hroot, run_summaries_cons hintermediate,
    run_summaries_cons hsigning]
  rfl

/-- What it keeps is found for the root as well, which it could not read. -/
theorem unread_path_found :
    let o := twoNamesOpening rootCertificate.text
    (⟨"a.crt/"⟩, none) ∈ o.lookups o.store .list ∧
      o.store.source ⟨"a.crt/"⟩ = .failed "Not a directory (os error 20)" ∧
      (o.serve o.store .list).cache.lookup ⟨"a.crt/"⟩ = some rootCertificate := by
  intro o
  have hsame : Path.same ⟨"a.crt"⟩ ⟨"a.crt/"⟩ = true := by decide +kernel
  refine ⟨mem_lookups_list o.node.paths o.store, oneFile_source_directory rootCertificate.text, ?_⟩
  rw [serve_list_twoNames (rootCertificate_read ⟨"a.crt"⟩), Store.keeping, Cache.lookup_insert, if_pos hsame]

end Opening

end PolicySeal
