import PolicySeal.Proofs.Trust.Interleaving
/-
  PolicySeal.Proofs.Trust.Consistency — what loading certificates leaves in the cache.

  Whatever is loaded from a store, and however it ends, the cache stays consistent
  (`Store.Consistent`): no path has two entries, an entry was there before or was read now,
  only old entries have gone, and if any has gone then all have. Work keeps it so because it
  is careful (`Work.Careful`): it drops the old entries before it looks a path up, and keeps a
  certificate only for a path that it has not found. This holds from one action to the next
  between any actions of other careful work (`Tidy.next`), and of work that runs alone
  (`Tidy.run`). All that is put together from loads is careful (`Loading.careful`).
-/

namespace PolicySeal.Trust

/-! ## Caches -/

namespace Cache

/-- No path has two entries. -/
def Distinct (cache : Cache) : Prop := cache.Pairwise fun d e => d.path.same e.path = false

variable {cache : Cache} {e : CacheEntry}

theorem Distinct.evict (h : cache.Distinct) (ttl : Time.Span) (now : Time.Instant) : (cache.evict ttl now).Distinct :=
  h.filter _

theorem Distinct.insert (h : cache.Distinct) (e : CacheEntry) : (cache.insert e).Distinct := by
  refine List.pairwise_append.mpr ⟨h.filter _, List.pairwise_singleton _ _, fun d hd d' hd' => ?_⟩
  rw [List.mem_singleton.mp hd']
  simpa using (List.mem_filter.mp hd).2

/-- Each entry is found under its own path. -/
theorem Distinct.lookup (h : cache.Distinct) (he : e ∈ cache) : cache.lookup e.path = some e.certificate := by
  induction h with
  | nil => cases he
  | @cons d cache hd _ ih =>
    rw [Cache.lookup, List.find?_cons]
    rcases List.mem_cons.mp he with rfl | he
    · rw [Path.same_self]
      rfl
    · rw [hd e he]
      exact ih he

end Cache

/-! ## Stores -/

namespace Store

/-- The entry has not been kept for too long. -/
def Fresh (s : Store) (e : CacheEntry) : Prop := s.now.millis - e.loadedAt.millis ≤ s.ttl.millis

/-- The path has no entry, or an old one. -/
def Lacks (s : Store) (path : Path) : Prop := ∀ e ∈ s.cache, s.Fresh e → e.path.same path = false

/-- What the cache of a store may have become by loading from it. -/
structure Consistent (s : Store) (cache : Cache) : Prop where
  distinct : s.cache.Distinct → cache.Distinct
  origin : ∀ e ∈ cache, e ∈ s.cache ∨ e.ReadIn s
  kept : ∀ e ∈ s.cache, s.Fresh e → e ∈ cache
  swept : cache = s.cache ∨ ∀ e ∈ cache, s.Fresh e

variable {s : Store} {cache : Cache} {path : Path} {e : CacheEntry}

theorem consistent_self (s : Store) : s.Consistent s.cache :=
  ⟨id, fun _ => Or.inl, fun _ he _ => he, Or.inl rfl⟩

theorem fresh_of_mem_evict (he : e ∈ cache.evict s.ttl s.now) : s.Fresh e := (mem_evict.mp he).2

theorem Consistent.evict (h : s.Consistent cache) : s.Consistent (cache.evict s.ttl s.now) where
  distinct hs := (h.distinct hs).evict _ _
  origin e he := h.origin e (mem_evict.mp he).1
  kept e he hfresh := mem_evict.mpr ⟨h.kept e he hfresh, hfresh⟩
  swept := Or.inr fun _ => fresh_of_mem_evict

/-- What is not found has nothing to find from before. -/
theorem Consistent.lacks (h : s.Consistent cache) (hnone : cache.lookup path = none) : s.Lacks path := by
  intro e he hfresh
  have hfind : cache.find? (·.path.same path) = none := Option.map_eq_none_iff.mp hnone
  exact Bool.eq_false_iff.mpr (List.find?_eq_none.mp hfind e (h.kept e he hfresh))

theorem Lacks.lookup_evicted (h : s.Lacks path) : s.evicted.cache.lookup path = none := by
  refine Option.map_eq_none_iff.mpr (List.find?_eq_none.mpr fun e he => ?_)
  obtain ⟨hmem, hfresh⟩ := mem_evict.mp he
  exact Bool.eq_false_iff.mp (h e hmem hfresh)

theorem fresh_insert (httl : 0 ≤ s.ttl.millis) (he : e.ReadIn s) (hfresh : ∀ d ∈ cache, s.Fresh d) :
    ∀ d ∈ cache.insert e, s.Fresh d := by
  intro d hd
  rcases List.mem_append.mp hd with hd | hd
  · exact hfresh d (List.mem_filter.mp hd).1
  · rw [List.mem_singleton.mp hd, Fresh, he.loadedAt]
    omega

theorem Consistent.insert (h : s.Consistent cache) (httl : 0 ≤ s.ttl.millis) (hlacks : s.Lacks e.path)
    (he : e.ReadIn s) (hfresh : ∀ d ∈ cache, s.Fresh d) : s.Consistent (cache.insert e) where
  distinct hs := (h.distinct hs).insert e
  origin d hd := by
    rcases List.mem_append.mp hd with hd | hd
    · exact h.origin d (List.mem_filter.mp hd).1
    · exact Or.inr (List.mem_singleton.mp hd ▸ he)
  kept d hd hd' := by
    have hother : d.path.same e.path = false := hlacks d hd hd'
    exact List.mem_append_left _ (List.mem_filter.mpr ⟨h.kept d hd hd', by rw [hother]; rfl⟩)
  swept := Or.inr (fresh_insert httl he hfresh)

/-- Of a path that a load missed, and whose document gives no certificate, there is no entry; one of another spelling is
there only if it was read now. -/
theorem Consistent.of_unread (h : s.Consistent cache) (hfresh : ∀ d ∈ cache, s.Fresh d) (hlacks : s.Lacks path)
    (hunread : ∀ c, outcome path (s.source path) ≠ some (.ok c)) (he : e ∈ cache) (hsame : e.path.same path = true) :
    e ∉ s.cache ∧ e.ReadIn s ∧ e.path ≠ path := by
  have hnew : e ∉ s.cache := fun hold => by
    rw [hlacks e hold (hfresh e he)] at hsame
    cases hsame
  have hread : e.ReadIn s := (h.origin e he).resolve_left hnew
  refine ⟨hnew, hread, ?_⟩
  rintro rfl
  obtain ⟨-, text, htext, hparsed⟩ := hread
  exact hunread e.certificate (by rw [htext, outcome, hparsed])

/-- The store is what loading may have made of `X`. -/
structure Within (X s : Store) : Prop where
  source : s.source = X.source
  ttl : s.ttl = X.ttl
  now : s.now = X.now
  consistent : X.Consistent s.cache

theorem within_self (s : Store) : s.Within s := ⟨rfl, rfl, rfl, s.consistent_self⟩

end Store

/-! ## Careful work -/

namespace Work

variable {α β : Type} {X s s' : Store} {swept : Bool} {w w' : Work α} {v : Work β} {cache : Cache}

/-- Work that drops the old entries before it looks anything up, and keeps only what it has read and not found. -/
def Careful (X : Store) (swept : Bool) : Work α → Prop
  | .done _ => True
  | .broken => True
  | .clock next => Careful X swept (next X.now)
  | .evict now next => now = X.now ∧ Careful X true next
  | .lookup path next =>
    swept = true ∧ (∀ c, Careful X swept (next (some c))) ∧ (X.Lacks path → Careful X swept (next none))
  | .read path next => Careful X swept (next (X.source path))
  | .insert e next => swept = true ∧ X.Lacks e.path ∧ e.ReadIn X ∧ Careful X swept next

/-- Work that is put together from loads is careful. -/
theorem Loading.careful (hw : w.Loading) (X : Store) : w.Careful X swept := by
  induction hw generalizing swept with
  | done a => trivial
  | broken => trivial
  | clock _ ih => exact ih X.now
  | read _ ih => exact ih _
  | @load path next _ ih =>
    refine ⟨rfl, rfl, fun c => ih (some (.ok c)), fun hlacks => ?_⟩
    simp only [Work.attempt, Work.bind, Careful]
    cases hanswer : X.source path with
    | broken => exact ih none
    | absent => exact ih _
    | failed message => exact ih _
    | text t =>
      simp only
      cases hread : Certificate.ofTextAt path t with
      | error fault => exact ih (some (.error fault))
      | ok c => exact ⟨rfl, hlacks, ⟨rfl, t, hanswer, hread⟩, ih (some (.ok c))⟩

/-- The work goes on carefully, and the old entries are not in the cache if it has dropped them. -/
def Tidy (X : Store) (cache : Cache) (w : Work α) : Prop :=
  ∃ swept, (swept = true → ∀ e ∈ cache, X.Fresh e) ∧ w.Careful X swept

theorem Loading.tidy (hw : w.Loading) (X : Store) (cache : Cache) : w.Tidy X cache := ⟨false, nofun, hw.careful X⟩

/-- Other work takes nothing of it away. -/
theorem Tidy.others {cache' : Cache} (hv : v.Tidy X cache)
    (hfresh : (∀ e ∈ cache, X.Fresh e) → ∀ e ∈ cache', X.Fresh e) : v.Tidy X cache' := by
  obtain ⟨swept, hswept, hv⟩ := hv
  exact ⟨swept, fun h => hfresh (hswept h), hv⟩

/-- One action: the cache stays consistent, without old entries if it had none, and the rest of the work is tidy. -/
theorem Tidy.next (hw : w.Tidy X s.cache) (hs : X.Within s) (httl : 0 ≤ X.ttl.millis)
    (hnext : w.next? s = some (w', s')) :
    X.Within s' ∧ ((∀ e ∈ s.cache, X.Fresh e) → ∀ e ∈ s'.cache, X.Fresh e) ∧ w'.Tidy X s'.cache := by
  obtain ⟨swept, hswept, hw⟩ := hw
  cases w with
  | done a => cases hnext
  | broken => cases hnext
  | clock next =>
    cases hnext
    rw [hs.now]
    exact ⟨hs, id, swept, hswept, hw⟩
  | evict now next =>
    obtain ⟨rfl, hw⟩ := hw
    cases hnext
    have hfresh : ∀ e ∈ s.cache.evict s.ttl X.now, X.Fresh e := hs.ttl ▸ fun _ => Store.fresh_of_mem_evict
    exact ⟨⟨hs.source, hs.ttl, hs.now, hs.ttl ▸ hs.consistent.evict⟩, fun _ => hfresh, true, fun _ => hfresh, hw⟩
  | lookup path next =>
    obtain ⟨-, hfound, hmissed⟩ := hw
    cases hnext
    refine ⟨hs, id, swept, hswept, ?_⟩
    cases hlookup : s.cache.lookup path with
    | some c => exact hfound c
    | none => exact hmissed (hs.consistent.lacks hlookup)
  | read path next =>
    cases hnext
    rw [hs.source]
    exact ⟨hs, id, swept, hswept, hw⟩
  | insert e next =>
    obtain ⟨rfl, hlacks, he, hw⟩ := hw
    cases hnext
    have hfresh : ∀ d ∈ s.cache.insert e, X.Fresh d := Store.fresh_insert httl he (hswept rfl)
    exact ⟨⟨hs.source, hs.ttl, hs.now, hs.consistent.insert httl hlacks he (hswept rfl)⟩, fun _ => hfresh, true,
      fun _ => hfresh, hw⟩

/-! ## Runs -/

/-- What the work looks up when it runs, and what it finds. -/
def lookups : Work α → Store → List (Path × Option Certificate)
  | done _, _ => []
  | broken, _ => []
  | clock next, s => (next s.now).lookups s
  | evict now next, s => next.lookups { s with cache := s.cache.evict s.ttl now }
  | lookup path next, s => (path, s.cache.lookup path) :: (next (s.cache.lookup path)).lookups s
  | read path next, s => (next (s.source path)).lookups s
  | insert entry next, s => next.lookups { s with cache := s.cache.insert entry }

theorem lookups_bind (w : Work α) (f : α → Work β) (s : Store) : (w >>= f).lookups s =
    w.lookups s ++ match w.run s with
      | (some a, t) => (f a).lookups t
      | (none, _) => [] := by
  rw [bind_eq]
  induction w generalizing s with
  | done a => rfl
  | broken => rfl
  | clock next ih => exact ih s.now s
  | evict now next ih => exact ih _
  | lookup path next ih => exact congrArg (List.cons _) (ih _ s)
  | read path next ih => exact ih _ s
  | insert entry next ih => exact ih _

/-- Alone, tidy work leaves the cache consistent, and no old entries once it has looked something up. What it does not
find had nothing to find from before. -/
theorem Tidy.run (hw : w.Tidy X s.cache) (hs : X.Within s) (httl : 0 ≤ X.ttl.millis) :
    X.Within (w.run s).2 ∧
      ((∀ e ∈ s.cache, X.Fresh e) ∨ w.lookups s ≠ [] → ∀ e ∈ (w.run s).2.cache, X.Fresh e) ∧
      ∀ path, (path, none) ∈ w.lookups s → X.Lacks path := by
  induction w generalizing s with
  | done a => exact ⟨hs, fun h => h.elim id (absurd rfl), fun _ h => absurd h List.not_mem_nil⟩
  | broken => exact ⟨hs, fun h => h.elim id (absurd rfl), fun _ h => absurd h List.not_mem_nil⟩
  | clock next ih =>
    obtain ⟨hs', -, hw'⟩ := hw.next hs httl rfl
    exact ih _ hw' hs'
  | evict now next ih =>
    obtain ⟨hs', hfresh, hw'⟩ := hw.next hs httl rfl
    obtain ⟨hwithin, hafter, hmissed⟩ := ih hw' hs'
    exact ⟨hwithin, fun h => hafter (h.imp_left hfresh), hmissed⟩
  | lookup path next ih =>
    obtain ⟨hs', -, hw'⟩ := hw.next hs httl rfl
    obtain ⟨hwithin, hafter, hmissed⟩ := ih _ hw' hs'
    obtain ⟨swept, hswept, rfl, -, -⟩ := hw
    refine ⟨hwithin, fun _ => hafter (Or.inl (hswept rfl)), fun other hother => ?_⟩
    rcases List.mem_cons.mp hother with heq | hother
    · obtain ⟨rfl, hnone⟩ := Prod.mk.inj heq
      exact hs.consistent.lacks hnone.symm
    · exact hmissed other hother
  | read path next ih =>
    obtain ⟨hs', -, hw'⟩ := hw.next hs httl rfl
    exact ih _ hw' hs'
  | insert entry next ih =>
    obtain ⟨hs', hfresh, hw'⟩ := hw.next hs httl rfl
    obtain ⟨hwithin, hafter, hmissed⟩ := ih hw' hs'
    exact ⟨hwithin, fun h => hafter (h.imp_left hfresh), hmissed⟩

end Work

/-- A load looks its path up. -/
theorem mem_lookups_load (path : Path) (s : Store) :
    (path, s.evicted.cache.lookup path) ∈ (load path).lookups s := List.mem_cons_self

end PolicySeal.Trust
