import PolicySeal.Proofs.Trust.Loads
/-
  PolicySeal.Proofs.Trust.Answers — what a store answers, whatever there is in its cache.

  To work that does nothing but load certificates a store is what it answers: for each path the
  certificate that is kept for it, or else what comes of the source (`Store.answer`). A load
  gives the answer for its path (`result_load`), and leaves the answers as they were but for one
  thing: after a certificate was loaded, all paths with the parts of this one are answered with
  it (`answer_load`), and stay so whatever else is loaded (`Serves.load`). So stores that answer
  alike at the paths that are asked for cannot be told apart: each load gives the same in both
  and leaves them alike (`respects_load`), and so does all work put together from such loads
  (`Respects.bind`).
-/

namespace PolicySeal.Trust

/-! ## Answers -/

namespace Store

/-- What a load of the path comes to. -/
def answer (s : Store) (path : Path) : Option (Except Fault Certificate) :=
  match s.evicted.cache.lookup path with
  | some c => some (.ok c)
  | none => outcome path (s.source path)

theorem evicted_evicted (s : Store) : s.evicted.evicted = s.evicted := by simp only [evicted, Cache.evict_evict]

theorem answer_evicted (s : Store) (path : Path) : s.evicted.answer path = s.answer path := by
  have hsource : s.evicted.source = s.source := rfl
  rw [answer, answer, evicted_evicted, hsource]

theorem answer_of_lookup {s : Store} {path : Path} {c : Certificate} (h : s.evicted.cache.lookup path = some c) :
    s.answer path = some (.ok c) := by simp only [answer, h]

theorem answer_of_lookup_eq_none {s : Store} {path : Path} (h : s.evicted.cache.lookup path = none) :
    s.answer path = outcome path (s.source path) := by simp only [answer, h]

end Store

/-- An entry that is kept just now is old only where entries are not to be kept at all. -/
theorem isStale_now {ttl : Time.Span} {now : Time.Instant} {path : Path} {c : Certificate} :
    Cache.isStale ttl now ⟨path, c, now⟩ = true ↔ ttl.millis < 0 := by
  have hsince : (now.since now).millis = 0 := by
    show now.millis - now.millis = 0
    omega
  rw [Cache.isStale, decide_eq_true_iff, hsince]

theorem result_load (path : Path) (s : Store) : ((load path).run s).1 = s.answer path := by
  cases hlookup : s.evicted.cache.lookup path with
  | some c => simp only [run_load, hlookup, Store.answer_of_lookup hlookup]
  | none => rw [result_of_lookup_eq_none hlookup, Store.answer_of_lookup_eq_none hlookup]

/-! ## After a load -/

theorem Store.answer_keeping {s : Store} {path : Path} {c : Certificate}
    (hnone : s.evicted.cache.lookup path = none) (other : Path) :
    (s.evicted.keeping ⟨path, c, s.now⟩).answer other
      = if path.same other = true ∧ 0 ≤ s.ttl.millis then some (.ok c) else s.answer other := by
  by_cases hstale : Cache.isStale s.ttl s.now ⟨path, c, s.now⟩ = true
  · -- The entry is dropped at once, and there was none for its path before.
    have hcache : (s.evicted.keeping ⟨path, c, s.now⟩).evicted.cache
        = s.evicted.cache.filter fun d => !d.path.same path := by
      simp only [evicted, keeping, Cache.evict_insert_stale hstale, Cache.evict_evict]
    have hlookup : (s.evicted.keeping ⟨path, c, s.now⟩).evicted.cache.lookup other = s.evicted.cache.lookup other := by
      rw [hcache]
      by_cases hsame : path.same other = true
      · rw [← Cache.lookup_congr hsame, ← Cache.lookup_congr hsame, Cache.lookup_drop, hnone]
      · exact Cache.lookup_drop_of_not_same hsame _
    have httl := isStale_now.mp hstale
    rw [if_neg (fun h => by omega), answer, answer, hlookup]
    rfl
  · have hcache : (s.evicted.keeping ⟨path, c, s.now⟩).evicted.cache = s.evicted.cache.insert ⟨path, c, s.now⟩ := by
      simp only [evicted, keeping, Cache.evict_insert (Bool.eq_false_iff.mpr hstale), Cache.evict_evict]
    have httl : 0 ≤ s.ttl.millis := Int.not_lt.mp fun h => hstale (isStale_now.mpr h)
    have hsource : (s.evicted.keeping ⟨path, c, s.now⟩).source = s.source := rfl
    rw [answer, hcache, Cache.lookup_insert, hsource]
    by_cases hsame : path.same other = true
    · rw [if_pos hsame, if_pos ⟨hsame, httl⟩]
    · rw [if_neg hsame, if_neg (fun h => hsame h.1), answer]

/-- A load leaves the answers as they are, but for one thing: a certificate that was loaded is the answer for all paths
with the same parts, as long as entries are kept at all. -/
theorem answer_load (path other : Path) (s : Store) : ((load path).run s).2.answer other =
    match s.answer path with
    | some (.ok c) => if path.same other = true ∧ 0 ≤ s.ttl.millis then some (.ok c) else s.answer other
    | _ => s.answer other := by
  rw [run_load]
  cases hlookup : s.evicted.cache.lookup path with
  | some c =>
    simp only [Store.answer_of_lookup hlookup, Store.answer_evicted]
    by_cases hsame : path.same other = true
    · rw [Cache.lookup_congr hsame] at hlookup
      rw [Store.answer_of_lookup hlookup, ite_self]
    · rw [if_neg fun h => hsame h.1]
  | none =>
    rw [Store.answer_of_lookup_eq_none hlookup]
    cases hread : outcome path (s.source path) with
    | none => exact Store.answer_evicted s other
    | some result =>
      cases result with
      | error fault => exact Store.answer_evicted s other
      | ok c => exact Store.answer_keeping hlookup other

/-- The certificate is the answer for the path, and for all paths with the same parts as long as entries are kept. -/
structure Store.Serves (s : Store) (path : Path) (c : Certificate) : Prop where
  answer : s.answer path = some (.ok c)
  same : 0 ≤ s.ttl.millis → ∀ other, path.same other = true → s.answer other = some (.ok c)

/-- So it is after the path was loaded, -/
theorem serves_after_load {s : Store} {path : Path} {c : Certificate} (h : s.answer path = some (.ok c)) :
    ((load path).run s).2.Serves path c := by
  obtain ⟨-, httl, -⟩ := Work.run_keeps (load path) s
  constructor
  · rw [answer_load, h]
    simp only [ite_self]
  · intro hkept other hsame
    rw [httl] at hkept
    rw [answer_load, h]
    exact if_pos ⟨hsame, hkept⟩

/-- and after any other load. -/
theorem Store.Serves.load {s : Store} {path : Path} {c : Certificate} (h : s.Serves path c) (loaded : Path) :
    ((load loaded).run s).2.Serves path c := by
  obtain ⟨-, httl, -⟩ := Work.run_keeps (Trust.load loaded) s
  -- What is loaded for a path with the same parts is the certificate itself.
  have hagain : ∀ other, path.same other = true → s.answer other = some (.ok c) →
      ((Trust.load loaded).run s).2.answer other = some (.ok c) := by
    intro other hsame hother
    rw [answer_load]
    cases hloaded : s.answer loaded with
    | none => exact hother
    | some result =>
      cases result with
      | error fault => exact hother
      | ok d =>
        simp only
        split
        · rename_i hcond
          have hsame' : path.same loaded = true := Path.same_trans hsame (Path.same_symm hcond.1)
          rw [← hloaded, h.same hcond.2 loaded hsame']
        · exact hother
  constructor
  · exact hagain path (Path.same_self path) h.answer
  · intro hkept other hsame
    rw [httl] at hkept
    exact hagain other hsame (h.same hkept other hsame)

/-! ## The check of a chain -/

theorem result_isChained_of_fault {s : Store} {paths : TrustPaths} {leaf : Certificate} {fault : Fault}
    (hintermediate : s.answer paths.intermediateCert = some (.error fault)) :
    ((isChained paths leaf).run s).1 = some false := by
  have hrun : (load paths.intermediateCert).run s
      = (some (.error fault), ((load paths.intermediateCert).run s).2) :=
    Prod.ext ((result_load _ _).trans hintermediate) rfl
  rw [isChained, Work.run_bind, hrun]
  rfl

theorem result_isChained {s : Store} {paths : TrustPaths} {leaf intermediate root : Certificate}
    (hintermediate : s.answer paths.intermediateCert = some (.ok intermediate))
    (hroot : ((load paths.intermediateCert).run s).2.answer paths.rootCert = some (.ok root)) :
    ((isChained paths leaf).run s).1 = some (isLinked leaf intermediate root) := by
  rw [isChained]
  refine Work.run_bind_eq_some_iff.mpr ⟨_, _, Prod.ext ((result_load _ _).trans hintermediate) rfl, ?_⟩
  refine Work.run_bind_eq_some_iff.mpr ⟨_, _, Prod.ext ((result_load _ _).trans hroot) rfl, ?_⟩
  rfl

/-! ## Stores that answer alike -/

/-- At the paths that are asked for, the stores answer alike. -/
structure Store.AlikeOn (asked : List Path) (s t : Store) : Prop where
  now : s.now = t.now
  ttl : s.ttl = t.ttl
  answers : ∀ path ∈ asked, s.answer path = t.answer path

/-- The work does not tell stores apart that answer alike, and leaves them alike. -/
def Work.Respects {α : Type} (asked : List Path) (w : Work α) : Prop :=
  ∀ s t : Store, s.AlikeOn asked t → (w.run s).1 = (w.run t).1 ∧ (w.run s).2.AlikeOn asked (w.run t).2

namespace Work

variable {α β : Type} {asked : List Path}

theorem respects_done (a : α) : (done a).Respects asked := fun _ _ h => ⟨rfl, h⟩

theorem respects_clock {next : Time.Instant → Work α} (h : ∀ now, (next now).Respects asked) :
    (clock next).Respects asked := by
  intro s t hst
  rw [run_clock, run_clock, hst.now]
  exact h t.now s t hst

theorem Respects.bind {w : Work α} {f : α → Work β} (hw : w.Respects asked) (hf : ∀ a, (f a).Respects asked) :
    (w >>= f).Respects asked := by
  intro s t hst
  obtain ⟨hresult, hafter⟩ := hw s t hst
  rw [run_bind, run_bind]
  generalize w.run s = x at hresult hafter
  generalize w.run t = y at hresult hafter
  obtain ⟨a, s'⟩ := x
  obtain ⟨b, t'⟩ := y
  obtain rfl : a = b := hresult
  cases a with
  | none => exact ⟨rfl, hafter⟩
  | some a => exact hf a s' t' hafter

end Work

variable {asked : List Path}

theorem respects_load {path : Path} (hpath : path ∈ asked) : (load path).Respects asked := by
  intro s t hst
  obtain ⟨-, hsttl, hsnow⟩ := Work.run_keeps (load path) s
  obtain ⟨-, htttl, htnow⟩ := Work.run_keeps (load path) t
  refine ⟨by rw [result_load, result_load, hst.answers path hpath], ?_, ?_, fun other hother => ?_⟩
  · rw [hsnow, htnow, hst.now]
  · rw [hsttl, htttl, hst.ttl]
  · rw [answer_load, answer_load, hst.answers path hpath, hst.answers other hother, hst.ttl]

theorem respects_isChained {paths : TrustPaths} (hintermediate : paths.intermediateCert ∈ asked)
    (hroot : paths.rootCert ∈ asked) (leaf : Certificate) : (isChained paths leaf).Respects asked := by
  apply (respects_load hintermediate).bind
  intro intermediate
  cases intermediate with
  | error _ => exact Work.respects_done false
  | ok intermediate =>
    apply (respects_load hroot).bind
    intro root
    cases root with
    | error _ => exact Work.respects_done false
    | ok root => exact Work.respects_done _

/-- A load that gives a certificate changes none of the answers where the paths with the same parts are answered with
that certificate, and one that gives none changes nothing. -/
theorem alikeOn_after_load {s : Store} {path : Path} (h : ∀ c, s.answer path = some (.ok c) → 0 ≤ s.ttl.millis →
    ∀ other ∈ asked, path.same other = true → s.answer other = some (.ok c)) :
    s.AlikeOn asked ((load path).run s).2 := by
  obtain ⟨-, httl, hnow⟩ := Work.run_keeps (load path) s
  refine ⟨hnow.symm, httl.symm, fun other hother => ?_⟩
  rw [answer_load]
  split
  · rename_i c hc
    split
    · rename_i hsame
      exact h c hc hsame.2 other hother hsame.1
    · rfl
  · rfl

end PolicySeal.Trust
