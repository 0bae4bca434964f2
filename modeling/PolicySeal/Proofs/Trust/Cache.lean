import PolicySeal.Trust.Store
/-
  PolicySeal.Proofs.Trust.Cache — the cache as a map from paths to certificates.

  Paths are told apart by their parts. A lookup gives the certificate that was kept last for the
  parts of the path (`Cache.lookup_insert`); dropping old entries is idempotent, and commutes with
  keeping one that is not old.
-/

namespace PolicySeal

theorem Path.same_iff {a b : Path} : a.same b = true ↔ a.parts = b.parts := beq_iff_eq

theorem Path.same_self (a : Path) : a.same a = true := same_iff.mpr rfl

theorem Path.same_symm {a b : Path} (h : a.same b = true) : b.same a = true := same_iff.mpr (same_iff.mp h).symm

theorem Path.same_trans {a b c : Path} (hab : a.same b = true) (hbc : b.same c = true) : a.same c = true :=
  same_iff.mpr ((same_iff.mp hab).trans (same_iff.mp hbc))

theorem Path.same_congr {a b : Path} (h : a.same b = true) (c : Path) : c.same a = c.same b := by
  rw [same, same, same_iff.mp h]

namespace Trust

/-! ## Lookups in a cache -/

namespace Cache

variable {ttl : Time.Span} {now : Time.Instant} {e : CacheEntry}

theorem lookup_congr {a b : Path} (h : a.same b = true) (cache : Cache) : cache.lookup a = cache.lookup b := by
  simp only [lookup, Path.same_congr h]

theorem evict_evict (cache : Cache) : (cache.evict ttl now).evict ttl now = cache.evict ttl now := by
  simp [evict, List.filter_filter]

theorem evict_insert (he : isStale ttl now e = false) (cache : Cache) :
    (cache.insert e).evict ttl now = (cache.evict ttl now).insert e := by
  simp [evict, insert, he, List.filter_filter, Bool.and_comm]

/-- An entry that is old from the start is not kept, and takes the one before it away. -/
theorem evict_insert_stale (he : isStale ttl now e = true) (cache : Cache) :
    (cache.insert e).evict ttl now = (cache.evict ttl now).filter fun d => !d.path.same e.path := by
  simp [evict, insert, he, List.filter_filter, Bool.and_comm]

theorem insert_drop (cache : Cache) : insert e (cache.filter fun d => !d.path.same e.path) = cache.insert e := by
  simp [insert, List.filter_filter]

theorem lookup_drop (path : Path) (cache : Cache) : lookup path (cache.filter fun d => !d.path.same path) = none := by
  rw [lookup, List.find?_filter, List.find?_eq_none.mpr]
  · rfl
  · intro d _
    cases d.path.same path <;> decide

theorem lookup_drop_of_not_same {path other : Path} (h : ¬ path.same other = true) (cache : Cache) :
    lookup other (cache.filter fun d => !d.path.same path) = lookup other cache := by
  have hsame : (fun d : CacheEntry => decide ((!d.path.same path) = true ∧ d.path.same other = true))
      = fun d => d.path.same other := by
    funext d
    by_cases hd : d.path.same path = true
    · have hother : ¬ d.path.same other = true := fun ho =>
        h (Path.same_trans (Path.same_symm hd) ho)
      simp [hd, hother]
    · simp [hd]
  rw [lookup, lookup, List.find?_filter, hsame]

theorem lookup_insert (cache : Cache) (path : Path) :
    (cache.insert e).lookup path = if e.path.same path then some e.certificate else cache.lookup path := by
  have hsplit : (cache.insert e).lookup path
      = (lookup path (cache.filter fun d => !d.path.same e.path)).or (lookup path [e]) := by
    rw [lookup, insert, List.find?_append, Option.map_or]
    rfl
  rw [hsplit]
  by_cases he : e.path.same path = true
  · rw [← lookup_congr he, lookup_drop]
    simp [lookup, he]
  · rw [lookup_drop_of_not_same he]
    simp [lookup, he]

end Cache

theorem mem_of_lookup {path : Path} {c : Certificate} {cache : Cache} (h : cache.lookup path = some c) :
    ∃ e ∈ cache, e.path.same path = true ∧ e.certificate = c := by
  obtain ⟨e, he, hc⟩ := Option.map_eq_some_iff.mp h
  have hsame : e.path.same path = true := by simpa using List.find?_some he
  exact ⟨e, List.mem_of_find?_eq_some he, hsame, hc⟩

theorem mem_evict {ttl : Time.Span} {now : Time.Instant} {cache : Cache} {e : CacheEntry} :
    e ∈ cache.evict ttl now ↔ e ∈ cache ∧ now.millis - e.loadedAt.millis ≤ ttl.millis := by
  have hstale : Cache.isStale ttl now e = false ↔ now.millis - e.loadedAt.millis ≤ ttl.millis := by
    rw [← Bool.not_eq_true, Cache.isStale, decide_eq_true_iff, Int.not_lt]
    rfl
  rw [Cache.evict, List.mem_filter, Bool.not_eq_true', hstale]

end Trust

end PolicySeal
