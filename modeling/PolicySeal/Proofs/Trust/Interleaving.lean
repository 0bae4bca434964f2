import PolicySeal.Proofs.Trust.Loads
/-
  PolicySeal.Proofs.Trust.Interleaving — work whose actions are taken between those of other work.

  Pieces of work that share a store take one action at a time (`Work.next?`). As long as the clock
  and the source stand still, an action changes the cache in one of two ways (`Setting.Moves`): it
  drops the entries that are too old, or it keeps the certificate that every load of its path gives
  (`Setting.held`). What work has found in the cache therefore stays there, whatever the others do
  (`Knows.moves`). `Leads` says what work leads to on the ground of what it knows: it holds from
  one action to the next between any actions of other work (`Leads.next`), and of work that runs
  alone (`Leads.run`). A load leads to one result only (`leads_load`), and so does what is put
  together from loads in the order of the route (`Steady`).
-/

namespace PolicySeal.Trust

/-! ## Actions -/

namespace Work

variable {α : Type}

/-- The work after its next action, and the store after it; none where no action is left. -/
def next? : Work α → Store → Option (Work α × Store)
  | done _, _ => none
  | broken, _ => none
  | clock next, s => some (next s.now, s)
  | evict now next, s => some (next, { s with cache := s.cache.evict s.ttl now })
  | lookup path next, s => some (next (s.cache.lookup path), s)
  | read path next, s => some (next (s.source path), s)
  | insert entry next, s => some (next, { s with cache := s.cache.insert entry })

/-- Alone, work takes one action after the other. -/
theorem run_of_next? {w w' : Work α} {s s' : Store} (h : w.next? s = some (w', s')) : w.run s = w'.run s' := by
  cases w <;> cases h <;> rfl

/-- Work without a next action is at its end. -/
theorem run_of_next?_eq_none {w : Work α} {s : Store} (h : w.next? s = none) :
    w.run s = (none, s) ∧ w = broken ∨ ∃ a, w.run s = (some a, s) ∧ w = done a := by
  cases w with
  | done a => exact Or.inr ⟨a, rfl, rfl⟩
  | broken => exact Or.inl ⟨rfl, rfl⟩
  | _ => cases h

/-- What the work yields whatever it is answered, the rest of it yields. -/
theorem Yields.next? {P : α → Prop} {w w' : Work α} {s s' : Store} (hw : w.Yields P)
    (h : w.next? s = some (w', s')) : w'.Yields P := by
  cases w with
  | done a => cases h
  | broken => cases h
  | clock next =>
    cases h
    exact hw s.now
  | evict now next =>
    cases h
    exact hw
  | lookup path next =>
    cases h
    exact hw _
  | read path next =>
    cases h
    exact hw _
  | insert entry next =>
    cases h
    exact hw

end Work

/-! ## What work of one time shares -/

/-- A store that pieces of work start from, and the paths in the order in which each of them loads some. -/
structure Setting where
  store : Store
  route : List Path
  ttl_nonneg : 0 ≤ store.ttl.millis

namespace Setting

variable {X : Setting} {cache cache' : Cache} {path : Path} {e : CacheEntry}

/-- What a cache has for a path that is not too old. -/
def sees (X : Setting) (cache : Cache) (path : Path) : Option Certificate :=
  (cache.evict X.store.ttl X.store.now).lookup path

theorem sees_congr {a b : Path} (h : a.same b = true) (cache : Cache) : X.sees cache a = X.sees cache b :=
  Cache.lookup_congr h _

/-- The certificate that comes of reading a path. -/
def read? (X : Setting) (path : Path) : Option Certificate :=
  match outcome path (X.store.source path) with
  | some (.ok c) => some c
  | _ => none

/-- The certificate that every load of the path gives: what the cache has at the start, or what comes of reading the
first path of the route with the same parts. -/
def held (X : Setting) (path : Path) : Option Certificate :=
  (X.sees X.store.cache path).or ((X.route.find? (·.same path)).bind X.read?)

/-- What a load of the path comes to. -/
def result (X : Setting) (path : Path) : Option (Except Fault Certificate) :=
  match X.held path with
  | some c => some (.ok c)
  | none => outcome path (X.store.source path)

theorem held_congr {a b : Path} (h : a.same b = true) : X.held a = X.held b := by
  simp only [held, sees_congr h, Path.same_congr h]

/-! ## What actions do to the cache -/

/-- The entry is kept now, with the certificate that is held. -/
structure Keeps (X : Setting) (e : CacheEntry) : Prop where
  loadedAt : e.loadedAt = X.store.now
  held : X.held e.path = some e.certificate

/-- How the cache changes when work takes an action. -/
inductive Moves (X : Setting) (cache : Cache) : Cache → Prop
  | none : Moves X cache cache
  | evict : Moves X cache (cache.evict X.store.ttl X.store.now)
  | insert {e : CacheEntry} (he : X.Keeps e) : Moves X cache (cache.insert e)

theorem Keeps.not_stale (he : X.Keeps e) : Cache.isStale X.store.ttl X.store.now e = false := by
  have httl := X.ttl_nonneg
  simp only [Cache.isStale, he.loadedAt, Time.Instant.since, decide_eq_false_iff_not]
  omega

theorem sees_evict (cache : Cache) (path : Path) :
    X.sees (cache.evict X.store.ttl X.store.now) path = X.sees cache path := by
  rw [sees, sees, Cache.evict_evict]

theorem sees_insert (he : X.Keeps e) (cache : Cache) (path : Path) :
    X.sees (cache.insert e) path = if e.path.same path then some e.certificate else X.sees cache path := by
  rw [sees, Cache.evict_insert he.not_stale, Cache.lookup_insert, sees]

/-- What is in the cache stays there. -/
theorem Moves.sees_isSome (hm : X.Moves cache cache') (h : (X.sees cache path).isSome) : (X.sees cache' path).isSome := by
  cases hm with
  | none => exact h
  | evict => rwa [sees_evict]
  | insert he =>
    rw [sees_insert he]
    split
    · rfl
    · exact h

/-- A store while work of the setting is under way. -/
structure During (X : Setting) (s : Store) : Prop where
  source : s.source = X.store.source
  ttl : s.ttl = X.store.ttl
  now : s.now = X.store.now
  /-- The cache has nothing but what is held, -/
  held : ∀ path c, X.sees s.cache path = some c → X.held path = some c
  /-- and all that it had at the start. -/
  kept : ∀ path, (X.sees X.store.cache path).isSome → (X.sees s.cache path).isSome

theorem during_start (X : Setting) : X.During X.store where
  source := rfl
  ttl := rfl
  now := rfl
  held path c h := by rw [held, h, Option.some_or]
  kept _ h := h

theorem During.moves {s : Store} (hs : X.During s) (hm : X.Moves s.cache cache') : X.During { s with cache := cache' } where
  source := hs.source
  ttl := hs.ttl
  now := hs.now
  held path c h := by
    cases hm with
    | none => exact hs.held path c h
    | evict => exact hs.held path c (by rwa [sees_evict] at h)
    | insert he =>
      rw [sees_insert he] at h
      split at h
      · rename_i hsame
        rw [← held_congr hsame, he.held]
        exact h
      · exact hs.held path c h
  kept path h := hm.sees_isSome (hs.kept path h)

/-! ## What work knows -/

/-- What work has seen of the cache: whether it has dropped the old entries, and which paths have an entry. -/
structure Known where
  clean : Bool := false
  paths : List Path := []

variable {α β : Type} {k : Known} {w w' : Work α} {s s' : Store} {Q : Option α → Known → Prop}

structure Knows (X : Setting) (cache : Cache) (k : Known) : Prop where
  clean : k.clean = true → cache.evict X.store.ttl X.store.now = cache
  paths : ∀ y ∈ k.paths, (X.sees cache y).isSome

theorem knows_nothing : X.Knows cache {} := ⟨nofun, nofun⟩

/-- Other work takes nothing of it away. -/
theorem Knows.moves (hk : X.Knows cache k) (hm : X.Moves cache cache') : X.Knows cache' k where
  clean hclean := by
    cases hm with
    | none => exact hk.clean hclean
    | evict => exact Cache.evict_evict cache
    | insert he => rw [Cache.evict_insert he.not_stale, hk.clean hclean]
  paths y hy := hm.sees_isSome (hk.paths y hy)

/-- Work that knows `k` ends as `Q` says, with a result or broken down, and moves the cache as it may. -/
def Leads (X : Setting) (k : Known) (w : Work α) (Q : Option α → Known → Prop) : Prop :=
  match w with
  | .done a => Q (some a) k
  | .broken => Q none k
  | .clock next => X.Leads k (next X.store.now) Q
  | .evict now next => now = X.store.now ∧ X.Leads { k with clean := true } next Q
  | .lookup path next =>
    k.clean = true ∧
      (∀ c, X.held path = some c → X.Leads { k with paths := path :: k.paths } (next (some c)) Q) ∧
      ((∀ y ∈ k.paths, y.same path = false) → X.sees X.store.cache path = none → X.Leads k (next none) Q)
  | .read path next => X.Leads k (next (X.store.source path)) Q
  | .insert e next => X.Keeps e ∧ X.Leads { k with paths := e.path :: k.paths } next Q

/-- One action: the store stays one of the setting, and the rest of the work leads to the same. -/
theorem Leads.next (hl : X.Leads k w Q) (hs : X.During s) (hk : X.Knows s.cache k) (hnext : w.next? s = some (w', s')) :
    X.Moves s.cache s'.cache ∧ X.During s' ∧ ∃ k', X.Knows s'.cache k' ∧ X.Leads k' w' Q := by
  cases w with
  | done a => cases hnext
  | broken => cases hnext
  | clock next =>
    cases hnext
    exact ⟨.none, hs, k, hk, hs.now ▸ hl⟩
  | evict now next =>
    obtain ⟨rfl, hl⟩ := hl
    cases hnext
    have hmove : X.Moves s.cache (s.cache.evict s.ttl X.store.now) := hs.ttl ▸ .evict
    refine ⟨hmove, hs.moves hmove, { k with clean := true }, ⟨fun _ => ?_, (hk.moves hmove).paths⟩, hl⟩
    rw [hs.ttl, Cache.evict_evict]
  | lookup path next =>
    obtain ⟨hclean, hsome, hnone⟩ := hl
    cases hnext
    have hsees : s.cache.lookup path = X.sees s.cache path := by rw [sees, hk.clean hclean]
    refine ⟨.none, hs, ?_⟩
    rw [hsees]
    cases hfound : X.sees s.cache path with
    | some c =>
      refine ⟨{ k with paths := path :: k.paths }, ⟨hk.clean, fun y hy => ?_⟩, hsome c (hs.held path c hfound)⟩
      rcases List.mem_cons.mp hy with rfl | hy
      · rw [hfound]
        rfl
      · exact hk.paths y hy
    | none =>
      refine ⟨k, hk, hnone (fun y hy => Bool.eq_false_iff.mpr fun hsame => ?_) ?_⟩
      · have hy := hk.paths y hy
        rw [sees_congr hsame, hfound] at hy
        cases hy
      · refine Option.not_isSome_iff_eq_none.mp fun hstart => ?_
        have hkept := hs.kept path hstart
        rw [hfound] at hkept
        cases hkept
  | read path next =>
    cases hnext
    exact ⟨.none, hs, k, hk, hs.source ▸ hl⟩
  | insert e next =>
    obtain ⟨he, hl⟩ := hl
    cases hnext
    have hmove : X.Moves s.cache (s.cache.insert e) := .insert he
    refine ⟨hmove, hs.moves hmove, { k with paths := e.path :: k.paths }, ⟨(hk.moves hmove).clean, fun y hy => ?_⟩, hl⟩
    rcases List.mem_cons.mp hy with rfl | hy
    · rw [sees_insert he, if_pos (Path.same_self _)]
      rfl
    · exact (hk.moves hmove).paths y hy

/-- Work that runs alone, at any moment between the actions of other work, ends as it leads to. -/
theorem Leads.run (hl : X.Leads k w Q) (hs : X.During s) (hk : X.Knows s.cache k) :
    X.During (w.run s).2 ∧ ∃ k', Q (w.run s).1 k' := by
  induction w generalizing s k with
  | done a => exact ⟨hs, k, hl⟩
  | broken => exact ⟨hs, k, hl⟩
  | clock next ih =>
    obtain ⟨-, hs', k', hk', hl'⟩ := hl.next hs hk rfl
    exact ih _ hl' hs' hk'
  | evict now next ih =>
    obtain ⟨-, hs', k', hk', hl'⟩ := hl.next hs hk rfl
    exact ih hl' hs' hk'
  | lookup path next ih =>
    obtain ⟨-, hs', k', hk', hl'⟩ := hl.next hs hk rfl
    exact ih _ hl' hs' hk'
  | read path next ih =>
    obtain ⟨-, hs', k', hk', hl'⟩ := hl.next hs hk rfl
    exact ih _ hl' hs' hk'
  | insert entry next ih =>
    obtain ⟨-, hs', k', hk', hl'⟩ := hl.next hs hk rfl
    exact ih hl' hs' hk'

/-! ## Work in parts -/

/-- Work in two parts leads on from where the first part leads to. -/
theorem Leads.bind {f : α → Work β} {R : Option β → Known → Prop} (hw : X.Leads k w Q)
    (hdone : ∀ a k', Q (some a) k' → X.Leads k' (f a) R) (hbroken : ∀ k', Q none k' → R none k') :
    X.Leads k (w >>= f) R := by
  rw [Work.bind_eq]
  induction w generalizing k with
  | done a => exact hdone a k hw
  | broken => exact hbroken k hw
  | clock next ih => exact ih _ hw
  | evict now next ih => exact ⟨hw.1, ih hw.2⟩
  | lookup path next ih => exact ⟨hw.1, fun c hc => ih _ (hw.2.1 c hc), fun hpaths hc => ih _ (hw.2.2 hpaths hc)⟩
  | read path next ih => exact ih _ hw
  | insert entry next ih => exact ⟨hw.1, ih hw.2⟩

theorem Leads.bind_some {f : α → Work β} {R : Option β → Known → Prop} {a : α} {k' : Known}
    (hw : X.Leads k w fun b l => b = some a ∧ l = k') (hf : X.Leads k' (f a) R) : X.Leads k (w >>= f) R := by
  refine hw.bind (fun b l h => ?_) fun l h => nomatch h.1
  obtain ⟨hb, rfl⟩ := h
  cases hb
  exact hf

/-- The work leads to one result only, or breaks down in any case. -/
def Steady (X : Setting) (k : Known) (w : Work α) : Prop := ∃ r, X.Leads k w fun a _ => a = r

theorem steady_done (a : α) : X.Steady k (.done a) := ⟨some a, rfl⟩

theorem steady_clock {next : Time.Instant → Work α} (h : X.Steady k (next X.store.now)) : X.Steady k (.clock next) := h

/-- Steady work that knows nothing yet leads to what it comes to alone at the start. -/
theorem Steady.leads_run (hw : X.Steady {} w) : X.Leads {} w fun a _ => a = (w.run X.store).1 := by
  obtain ⟨r, hr⟩ := hw
  obtain ⟨-, -, hrun⟩ := hr.run X.during_start knows_nothing
  rwa [hrun]

theorem Steady.bind_done {f : α → Work β} {g : α → β} (hw : X.Steady k w) (hf : ∀ a, f a = .done (g a)) :
    X.Steady k (w >>= f) := by
  obtain ⟨r, hr⟩ := hw
  refine ⟨r.map g, hr.bind (fun a k' ha => ?_) fun k' ha => ?_⟩
  · rw [hf, ← ha]
    rfl
  · rw [← ha]
    rfl

/-- Work that knows `k` comes to the path as the route has it, or knows an entry for it. -/
def OnRoute (X : Setting) (k : Known) (path : Path) : Prop :=
  (∀ y ∈ k.paths, y.same path = false) → X.route.find? (·.same path) = some path

/-- Where the paths that stand before it on the route are known, work comes to a path as the route has it. -/
theorem onRoute_of_append (before : List Path) {rest : List Path} (hroute : X.route = before ++ path :: rest)
    (hbefore : ∀ y ∈ before, y ∈ k.paths) : X.OnRoute k path := by
  intro hpaths
  have hnone : before.find? (·.same path) = none :=
    List.find?_eq_none.mpr fun y hy => Bool.not_eq_true _ ▸ hpaths y (hbefore y hy)
  simp [hroute, hnone, Path.same_self]

/-- What is known after a load. -/
def Known.loaded (k : Known) (path : Path) : Option (Except Fault Certificate) → Known
  | some (.ok _) => ⟨true, path :: k.paths⟩
  | _ => ⟨true, k.paths⟩

/-- A load on the route leads to the result of its path, and to an entry for it where that is a certificate. -/
theorem leads_load (hroute : X.OnRoute k path) : X.Leads k (load path) fun a k' =>
    a = X.result path ∧ k' = k.loaded path (X.result path) := by
  refine ⟨rfl, rfl, fun c hc => ?_, fun hpaths hstart => ?_⟩
  · have hresult : X.result path = some (.ok c) := by rw [result, hc]
    exact ⟨hresult.symm, by rw [hresult, Known.loaded]⟩
  · have hheld : X.held path = X.read? path := by rw [held, hstart, Option.none_or, hroute hpaths, Option.bind_some]
    have hfault : ∀ a, outcome path (X.store.source path) = a → (∀ c, a ≠ some (.ok c)) → X.result path = a := by
      intro a ha hne
      have hnone : X.held path = none := by
        rw [hheld, read?, ha]
        split
        · exact absurd rfl (hne _)
        · rfl
      rw [result, hnone, ha]
    simp only [Leads]
    cases hanswer : X.store.source path with
    | text t =>
      cases hread : Certificate.ofTextAt path t with
      | ok c =>
        have hc : X.held path = some c := by rw [hheld, read?, hanswer, outcome, hread]
        have hresult : X.result path = some (.ok c) := by rw [result, hc]
        simp only [hread, hresult]
        exact ⟨⟨rfl, hc⟩, rfl, rfl⟩
      | error fault =>
        have hresult := hfault _ (by rw [hanswer, outcome, hread]) fun _ h => by cases h
        simp only [hread, hresult]
        exact ⟨rfl, rfl⟩
    | absent | failed _ | broken =>
      have hresult := hfault _ (by rw [hanswer, outcome]) fun _ h => by cases h
      simp only [hresult]
      exact ⟨rfl, rfl⟩

/-- Work that goes on from a load on the route. -/
theorem steady_load {f : Except Fault Certificate → Work β} (hroute : X.OnRoute k path)
    (hok : ∀ c, X.Steady ⟨true, path :: k.paths⟩ (f (.ok c))) (herror : ∀ fault, X.Steady ⟨true, k.paths⟩ (f (.error fault))) :
    X.Steady k (load path >>= f) := by
  have hload := leads_load hroute
  cases hresult : X.result path with
  | none =>
    rw [hresult] at hload
    exact ⟨none, hload.bind (fun _ _ h => nomatch h.1) fun _ _ => rfl⟩
  | some loaded =>
    rw [hresult] at hload
    cases loaded with
    | ok c =>
      obtain ⟨r, hr⟩ := hok c
      exact ⟨r, hload.bind_some hr⟩
    | error fault =>
      obtain ⟨r, hr⟩ := herror fault
      exact ⟨r, hload.bind_some hr⟩

theorem steady_isChained {paths : TrustPaths} (leaf : Certificate) (hintermediate : X.OnRoute k paths.intermediateCert)
    (hroot : X.OnRoute ⟨true, paths.intermediateCert :: k.paths⟩ paths.rootCert) :
    X.Steady k (isChained paths leaf) := by
  refine steady_load hintermediate (fun intermediate => ?_) fun fault => steady_done false
  exact steady_load hroot (fun root => steady_done _) fun fault => steady_done false

end Setting

end PolicySeal.Trust
