import PolicySeal.Proofs.Trust.Cache
import PolicySeal.Proofs.Trust.Work
/-
  PolicySeal.Proofs.Trust.Loads — what loading certificates does to the store.

  A load drops the entries that have been kept for too long, and then takes a certificate
  from the cache, or else what comes of the source (`run_load`). An entry that is kept
  afterwards was there before, or was read in this load (`mem_cache_load`). All other work
  on the store is put together from loads (`Loading`), and so does to it what some loads in
  turn do (`Loading.loadsOnly`).
-/

namespace PolicySeal

theorem TrustConfig.ttl_nonneg (config : TrustConfig) : 0 ≤ config.ttl.millis := by
  have hmin : (0 : Int) ≤ min (config.cacheTtl.toNat : Int) 0x7FFFFFFFFFFFFFFF := by omega
  exact hmin

namespace Trust

/-! ## One load -/

/-- What comes of an answer of the source. -/
def outcome (path : Path) : Answer → Option (Except Fault Certificate)
  | .text s => some (Certificate.ofTextAt path s)
  | .absent => some (.error (.certificateNotFound path))
  | .failed message => some (.error (.unreadable path message))
  | .broken => none

namespace Store

/-- Without the entries that have been kept for too long. -/
def evicted (s : Store) : Store := { s with cache := s.cache.evict s.ttl s.now }

/-- Without any entries. -/
def cleared (s : Store) : Store := { s with cache := [] }

def keeping (s : Store) (e : CacheEntry) : Store := { s with cache := s.cache.insert e }

end Store

/-- A load takes the certificate from the cache, or what comes of the source, and keeps a certificate that was read. -/
theorem run_load (path : Path) (s : Store) : (load path).run s =
    match s.evicted.cache.lookup path with
    | some c => (some (.ok c), s.evicted)
    | none =>
      match outcome path (s.source path) with
      | some (.ok c) => (some (.ok c), s.evicted.keeping ⟨path, c, s.now⟩)
      | result => (result, s.evicted) := by
  simp only [load, Work.run, Store.evicted]
  cases Cache.lookup path (s.cache.evict s.ttl s.now) with
  | some c => rfl
  | none =>
    simp only [Work.run]
    cases s.source path with
    | text t =>
      simp only [outcome]
      cases Certificate.ofTextAt path t <;> rfl
    | _ => rfl

/-- Where the cache has nothing to give, what comes of the source is the result. -/
theorem result_of_lookup_eq_none {path : Path} {s : Store} (h : s.evicted.cache.lookup path = none) :
    ((load path).run s).1 = outcome path (s.source path) := by
  simp only [run_load, h]
  split <;> simp_all

/-- A certificate that was loaded is loaded again, and that changes nothing. -/
theorem run_load_again {path : Path} {s t : Store} {c : Certificate} (h : (load path).run s = (some (.ok c), t)) :
    (load path).run t = (some (.ok c), t) := by
  have hevicted : s.evicted.evicted = s.evicted := by simp only [Store.evicted, Cache.evict_evict]
  rw [run_load] at h
  cases hlookup : s.evicted.cache.lookup path with
  | some d =>
    simp only [hlookup, Prod.mk.injEq, Option.some.injEq, Except.ok.injEq] at h
    obtain ⟨rfl, rfl⟩ := h
    rw [run_load, hevicted, hlookup]
  | none =>
    simp only [hlookup] at h
    split at h
    · rename_i d hread
      simp only [Prod.mk.injEq, Option.some.injEq, Except.ok.injEq] at h
      obtain ⟨rfl, rfl⟩ := h
      let e : CacheEntry := ⟨path, d, s.now⟩
      cases hstale : Cache.isStale s.ttl s.now e with
      | false =>
        have hkept : (s.evicted.keeping e).evicted = s.evicted.keeping e := by
          simp only [Store.evicted, Store.keeping, Cache.evict_insert hstale, Cache.evict_evict]
        have hfound : (s.evicted.keeping e).cache.lookup path = some d := by
          rw [Store.keeping, Cache.lookup_insert, if_pos (Path.same_self path)]
        rw [run_load, hkept, hfound]
      | true =>
        -- Entries are not kept at all: the certificate is read again.
        have hdropped : (s.evicted.keeping e).evicted.cache.lookup path = none := by
          simp only [Store.evicted, Store.keeping, Cache.evict_insert_stale hstale]
          exact Cache.lookup_drop path _
        have hagain : (s.evicted.keeping e).evicted.keeping e = s.evicted.keeping e := by
          simp only [Store.evicted, Store.keeping, Cache.evict_insert_stale hstale, Cache.insert_drop, Cache.evict_evict]
        have hsource : outcome path ((s.evicted.keeping e).source path) = some (.ok d) := hread
        rw [run_load, hdropped, hsource]
        exact congrArg (Prod.mk _) hagain
    · rename_i hread
      simp only [Prod.mk.injEq] at h
      exact absurd h.1 (hread c)

theorem run_load_cleared (path : Path) (s : Store) :
    ((load path).run s.cleared).1 = outcome path (s.source path) := result_of_lookup_eq_none rfl

/-- A key is read from the source alone, and moves nothing. -/
theorem run_loadKey {path : Path} {s t : Store} (hsource : t.source = s.source) :
    (loadKey path).run t = (((loadKey path).run s).1, t) := by
  simp only [loadKey, Work.run, hsource]
  split <;> rfl

/-- The entry holds what the source has for its path, read at the time of the store. -/
structure CacheEntry.ReadIn (e : CacheEntry) (s : Store) : Prop where
  loadedAt : e.loadedAt = s.now
  read : ∃ text, s.source e.path = .text text ∧ Certificate.ofTextAt e.path text = .ok e.certificate

theorem readIn_of_outcome {path : Path} {c : Certificate} {s : Store}
    (h : outcome path (s.source path) = some (.ok c)) : (⟨path, c, s.now⟩ : CacheEntry).ReadIn s := by
  refine ⟨rfl, ?_⟩
  cases hanswer : s.source path with
  | text t =>
    rw [hanswer] at h
    exact ⟨t, rfl, Option.some.inj h⟩
  | _ =>
    rw [hanswer] at h
    cases h

/-- An entry after a load was there before, or was read in it. -/
theorem mem_cache_load {path : Path} {s : Store} {e : CacheEntry} (h : e ∈ ((load path).run s).2.cache) :
    e ∈ s.cache ∨ e.ReadIn s := by
  have hevicted : e ∈ s.evicted.cache → e ∈ s.cache := fun he => (mem_evict.mp he).1
  rw [run_load] at h
  split at h
  · exact Or.inl (hevicted h)
  · split at h
    · rename_i hread
      rcases List.mem_append.mp h with h | h
      · exact Or.inl (hevicted (List.mem_filter.mp h).1)
      · rw [List.mem_singleton.mp h]
        exact Or.inr (readIn_of_outcome hread)
    · exact Or.inl (hevicted h)

/-! ## Loads in turn -/

/-- The store after the certificates at some paths were loaded, one after the other. -/
def Store.afterLoads (s : Store) (paths : List Path) : Store := paths.foldl (fun s path => ((load path).run s).2) s

theorem afterLoads_keeps (s : Store) (paths : List Path) : (s.afterLoads paths).source = s.source ∧
    (s.afterLoads paths).ttl = s.ttl ∧ (s.afterLoads paths).now = s.now := by
  induction paths generalizing s with
  | nil => exact ⟨rfl, rfl, rfl⟩
  | cons path paths ih =>
    obtain ⟨hsource, httl, hnow⟩ := Work.run_keeps (load path) s
    obtain ⟨hsource', httl', hnow'⟩ := ih ((load path).run s).2
    exact ⟨hsource'.trans hsource, httl'.trans httl, hnow'.trans hnow⟩

theorem mem_cache_afterLoads {s : Store} {paths : List Path} {e : CacheEntry} (h : e ∈ (s.afterLoads paths).cache) :
    e ∈ s.cache ∨ e.ReadIn s := by
  induction paths generalizing s with
  | nil => exact Or.inl h
  | cons path paths ih =>
    obtain ⟨hsource, -, hnow⟩ := Work.run_keeps (load path) s
    rcases ih h with h | ⟨hloaded, hread⟩
    · exact mem_cache_load h
    · rw [hnow] at hloaded
      rw [hsource] at hread
      exact Or.inr ⟨hloaded, hread⟩

/-- The work does to the store what some loads in turn do. -/
def Work.LoadsOnly {α : Type} (w : Work α) : Prop := ∀ s, ∃ paths, (w.run s).2 = s.afterLoads paths

/-- Work that is put together from loads, of which it goes on even when one breaks down. Apart from them it asks for the
time, and reads what is not kept. -/
inductive Work.Loading {α : Type} : Work α → Prop
  | done (a : α) : Loading (.done a)
  | broken : Loading .broken
  | clock {next : Time.Instant → Work α} (h : ∀ now, Loading (next now)) : Loading (.clock next)
  | read {path : Path} {next : Answer → Work α} (h : ∀ a, Loading (next a)) : Loading (.read path next)
  | load {path : Path} {next : Option (Except Fault Certificate) → Work α} (h : ∀ r, Loading (next r)) :
      Loading ((load path).attempt >>= next)

namespace Work

variable {α β : Type}

theorem run_attempt (w : Work α) (s : Store) : w.attempt.run s = (some (w.run s).1, (w.run s).2) := by
  induction w generalizing s with
  | done a => rfl
  | broken => rfl
  | clock next ih => exact ih s.now s
  | evict now next ih => exact ih _
  | lookup path next ih => exact ih _ s
  | read path next ih => exact ih _ s
  | insert entry next ih => exact ih _

theorem LoadsOnly.attempt {w : Work α} (hw : w.LoadsOnly) : w.attempt.LoadsOnly := by
  intro s
  rw [run_attempt]
  exact hw s

theorem LoadsOnly.bind {w : Work α} {f : α → Work β} (hw : w.LoadsOnly) (hf : ∀ a, (f a).LoadsOnly) :
    (w >>= f).LoadsOnly := by
  intro s
  obtain ⟨paths, hpaths⟩ := hw s
  rw [run_bind]
  split
  · rename_i a t hrun
    obtain ⟨more, hmore⟩ := hf a t
    have ht : t = s.afterLoads paths := by rw [← hpaths, hrun]
    refine ⟨paths ++ more, ?_⟩
    rw [hmore, ht, Store.afterLoads, Store.afterLoads, Store.afterLoads, List.foldl_append]
  · rename_i t hrun
    rw [hrun] at hpaths
    exact ⟨paths, hpaths⟩

theorem Loading.loadsOnly {w : Work α} (hw : w.Loading) : w.LoadsOnly := by
  induction hw with
  | done a => exact fun _ => ⟨[], rfl⟩
  | broken => exact fun _ => ⟨[], rfl⟩
  | clock _ ih => exact fun s => ih s.now s
  | read _ ih => exact fun s => ih (s.source _) s
  | @load path next _ ih =>
    have hload : (Trust.load path).LoadsOnly := fun _ => ⟨[path], rfl⟩
    exact hload.attempt.bind ih

theorem Loading.bind {w : Work α} {f : α → Work β} (hw : w.Loading) (hf : ∀ a, (f a).Loading) :
    (w >>= f).Loading := by
  induction hw with
  | done a => exact hf a
  | broken => exact .broken
  | clock _ ih => exact .clock ih
  | read _ ih => exact .read ih
  | load _ ih =>
    rw [bind_assoc]
    exact .load ih

theorem Loading.attempt {w : Work α} (hw : w.Loading) : w.attempt.Loading := by
  induction hw with
  | done a => exact .done _
  | broken => exact .done _
  | clock _ ih => exact .clock ih
  | read _ ih => exact .read ih
  | load _ ih =>
    rw [attempt_bind]
    exact .load ih

end Work

/-! ## Work on the store -/

theorem load_loading (path : Path) : (load path).Loading := by
  rw [← Work.attempt_bind_done (load path)]
  refine .load fun r => ?_
  cases r with
  | none => exact .broken
  | some r => exact .done r

theorem loadHierarchy_loading (paths : TrustPaths) : (loadHierarchy paths).Loading := by
  refine (load_loading _).bind fun root => ?_
  cases root with
  | error fault => exact .done _
  | ok root =>
    refine (load_loading _).bind fun intermediate => ?_
    cases intermediate with
    | error fault => exact .done _
    | ok intermediate =>
      refine (load_loading _).bind fun signing => ?_
      cases signing <;> exact .done _

theorem validate_loading (paths : TrustPaths) (skew : Time.Span) : (validate paths skew).Loading := by
  refine (loadHierarchy_loading paths).bind fun h => ?_
  cases h with
  | error fault => exact .done _
  | ok h =>
    refine .clock fun now => ?_
    cases validate? h now skew with
    | none => exact .broken
    | some v => exact .done _

theorem isChained_loading (paths : TrustPaths) (leaf : Certificate) : (isChained paths leaf).Loading := by
  refine (load_loading _).bind fun intermediate => ?_
  cases intermediate with
  | error fault => exact .done _
  | ok intermediate =>
    refine (load_loading _).bind fun root => ?_
    cases root <;> exact .done _

theorem isTextChained_loading (paths : TrustPaths) (text : String) : (isTextChained paths text).Loading := by
  rw [isTextChained]
  cases Certificate.ofText text with
  | ok leaf => exact isChained_loading paths leaf
  | error fault => exact .done _

theorem loadKey_loading (path : Path) : (loadKey path).Loading := by
  refine .read fun answer => ?_
  cases answer with
  | broken => exact .broken
  | _ => exact .done _

theorem summaries_loading (now : Time.Instant) (tiers : List (Tier × Path)) : (summaries now tiers).Loading := by
  induction tiers with
  | nil => exact .done _
  | cons t rest ih => exact (load_loading _).bind fun _ => ih.bind fun _ => .done _

theorem list_loading (paths : TrustPaths) : (list paths).Loading :=
  .clock fun now => summaries_loading now (tiers paths)

end Trust

end PolicySeal
