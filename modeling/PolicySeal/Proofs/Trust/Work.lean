import PolicySeal.Files.Tree
import PolicySeal.Trust.Store
/-
  PolicySeal.Proofs.Trust.Work — what a run of work does to the store, and when it ends.

  A run goes through the first part of work and then the second (`run_bind`), and moves
  nothing of the store but the cache (`run_keeps`). What work yields whatever it is answered
  is so of the result of every run (`Yields.run`). A run breaks down only where the source
  does: as long as the source answers, loading a certificate comes to an end
  (`load_ends`), and so does whatever is put together from loads (`Ends.bind`).
-/

namespace PolicySeal.Trust

namespace Work

variable {α β : Type}

/-! ## Runs -/

theorem bind_eq (w : Work α) (f : α → Work β) : w >>= f = w.bind f := rfl

@[simp] theorem run_done (a : α) (s : Store) : (done a).run s = (some a, s) := rfl
@[simp] theorem run_pure (a : α) (s : Store) : (pure a : Work α).run s = (some a, s) := rfl
@[simp] theorem run_clock (next : Time.Instant → Work α) (s : Store) : (clock next).run s = (next s.now).run s := rfl

/-- Work in two parts runs one after the other; where the first breaks down, all does. -/
theorem run_bind (w : Work α) (f : α → Work β) (s : Store) : (w >>= f).run s =
    match w.run s with
    | (some a, t) => (f a).run t
    | (none, t) => (none, t) := by
  rw [bind_eq]
  induction w generalizing s with
  | done a => rfl
  | broken => rfl
  | clock next ih => exact ih s.now s
  | evict now next ih => exact ih _
  | lookup path next ih => exact ih _ s
  | read path next ih => exact ih _ s
  | insert entry next ih => exact ih _

/-- A result of work in two parts comes from a result of the first. -/
theorem run_bind_eq_some_iff {w : Work α} {f : α → Work β} {s : Store} {b : β} :
    ((w >>= f).run s).1 = some b ↔ ∃ a t, w.run s = (some a, t) ∧ ((f a).run t).1 = some b := by
  rw [run_bind]
  obtain ⟨a, t⟩ := w.run s
  cases a with
  | none => simp
  | some a =>
    simp only [Prod.mk.injEq, Option.some.injEq]
    exact ⟨fun h => ⟨a, t, ⟨rfl, rfl⟩, h⟩, fun ⟨_, _, ⟨rfl, rfl⟩, h⟩ => h⟩

/-- The same with the stores that the runs leave. -/
theorem run_bind_eq_iff {w : Work α} {f : α → Work β} {s u : Store} {b : β} :
    (w >>= f).run s = (some b, u) ↔ ∃ a t, w.run s = (some a, t) ∧ (f a).run t = (some b, u) := by
  rw [run_bind]
  obtain ⟨a, t⟩ := w.run s
  cases a with
  | none => simp
  | some a =>
    simp only [Prod.mk.injEq, Option.some.injEq]
    exact ⟨fun h => ⟨a, t, ⟨rfl, rfl⟩, h⟩, fun ⟨_, _, ⟨rfl, rfl⟩, h⟩ => h⟩

/-- Nothing but the cache is moved. -/
theorem run_keeps (w : Work α) (s : Store) :
    (w.run s).2.source = s.source ∧ (w.run s).2.ttl = s.ttl ∧ (w.run s).2.now = s.now := by
  induction w generalizing s with
  | done a => exact ⟨rfl, rfl, rfl⟩
  | broken => exact ⟨rfl, rfl, rfl⟩
  | clock next ih => exact ih s.now s
  | evict now next ih => exact ih _
  | lookup path next ih => exact ih _ s
  | read path next ih => exact ih _ s
  | insert entry next ih => exact ih _

theorem bind_assoc {γ : Type} (w : Work α) (f : α → Work β) (g : β → Work γ) :
    (w >>= f) >>= g = w >>= fun a => f a >>= g := by
  simp only [bind_eq]
  induction w with
  | done a => rfl
  | broken => rfl
  | clock next ih => exact congrArg clock (funext ih)
  | evict now next ih => exact congrArg (evict now) ih
  | lookup path next ih => exact congrArg (lookup path) (funext ih)
  | read path next ih => exact congrArg (read path) (funext ih)
  | insert entry next ih => exact congrArg (insert entry) ih

/-- An attempt does not break down, so that only what follows it is left to be attempted. -/
theorem attempt_bind (w : Work α) (f : Option α → Work β) :
    (w.attempt >>= f).attempt = w.attempt >>= fun a => (f a).attempt := by
  simp only [bind_eq]
  induction w with
  | done a => rfl
  | broken => rfl
  | clock next ih => exact congrArg clock (funext ih)
  | evict now next ih => exact congrArg (evict now) ih
  | lookup path next ih => exact congrArg (lookup path) (funext ih)
  | read path next ih => exact congrArg (read path) (funext ih)
  | insert entry next ih => exact congrArg (insert entry) ih

/-- To attempt work, and to break down where it did, is the work itself. -/
theorem attempt_bind_done (w : Work α) : (w.attempt >>= fun a => a.elim broken done) = w := by
  simp only [bind_eq]
  induction w with
  | done a => rfl
  | broken => rfl
  | clock next ih => exact congrArg clock (funext ih)
  | evict now next ih => exact congrArg (evict now) ih
  | lookup path next ih => exact congrArg (lookup path) (funext ih)
  | read path next ih => exact congrArg (read path) (funext ih)
  | insert entry next ih => exact congrArg (insert entry) ih

theorem now_of_run {w : Work α} {s t : Store} {a : Option α} (h : w.run s = (a, t)) : t.now = s.now := by
  have := (run_keeps w s).2.2
  rwa [h] at this

theorem ttl_of_run {w : Work α} {s t : Store} {a : Option α} (h : w.run s = (a, t)) : t.ttl = s.ttl := by
  have := (run_keeps w s).2.1
  rwa [h] at this

/-! ## What work can come to -/

/-- Whatever the work is answered, its result is as `P` says. -/
def Yields (P : α → Prop) : Work α → Prop
  | done a => P a
  | broken => True
  | clock next => ∀ now, (next now).Yields P
  | evict _ next => next.Yields P
  | lookup _ next => ∀ found, (next found).Yields P
  | read _ next => ∀ answer, (next answer).Yields P
  | insert _ next => next.Yields P

variable {P : α → Prop} {Q : β → Prop} {w : Work α} {f : α → Work β}

theorem Yields.bind (hw : w.Yields P) (hf : ∀ a, P a → (f a).Yields Q) : (w >>= f).Yields Q := by
  rw [bind_eq]
  induction w with
  | done a => exact hf a hw
  | broken => trivial
  | clock next ih => exact fun now => ih now (hw now)
  | evict now next ih => exact ih hw
  | lookup path next ih => exact fun found => ih found (hw found)
  | read path next ih => exact fun answer => ih answer (hw answer)
  | insert entry next ih => exact ih hw

theorem yields_any (w : Work α) : w.Yields fun _ => True := by
  induction w with
  | done a => trivial
  | broken => trivial
  | clock next ih => exact ih
  | evict now next ih => exact ih
  | lookup path next ih => exact ih
  | read path next ih => exact ih
  | insert entry next ih => exact ih

/-- Where the second part yields it in any case, nothing need be known of the first. -/
theorem yields_bind (w : Work α) (hf : ∀ a, (f a).Yields Q) : (w >>= f).Yields Q :=
  (yields_any w).bind fun a _ => hf a

theorem Yields.run (hw : w.Yields P) {s : Store} {a : α} (h : (w.run s).1 = some a) : P a := by
  induction w generalizing s with
  | done b =>
    cases h
    exact hw
  | broken => cases h
  | clock next ih => exact ih s.now (hw s.now) h
  | evict now next ih => exact ih hw h
  | lookup path next ih => exact ih _ (hw _) h
  | read path next ih => exact ih _ (hw _) h
  | insert entry next ih => exact ih hw h

/-! ## Work that ends -/

end Work

/-- The source breaks down nowhere. -/
def Store.Answers (s : Store) : Prop := ∀ path, s.source path ≠ .broken

/-- Files are read or are not; no reading breaks down. -/
theorem Store.answers_of_files {s : Store} (files : FileTree) (h : s.source = files.source) : s.Answers := by
  intro path
  rw [h, FileTree.source]
  split <;> simp

/-- The work comes to a result in every store whose source answers. -/
def Work.Ends {α : Type} (w : Work α) : Prop := ∀ s : Store, s.Answers → ∃ a, (w.run s).1 = some a

namespace Work

variable {α β : Type}

theorem answers_run (w : Work α) {s : Store} (h : s.Answers) : (w.run s).2.Answers := by
  intro path
  rw [(run_keeps w s).1]
  exact h path

theorem ends_done (a : α) : (done a).Ends := fun _ _ => ⟨a, rfl⟩

theorem ends_clock {next : Time.Instant → Work α} (h : ∀ now, (next now).Ends) : (clock next).Ends :=
  fun s hs => h s.now s hs

theorem Ends.bind {w : Work α} {f : α → Work β} (hw : w.Ends) (hf : ∀ a, (f a).Ends) : (w >>= f).Ends := by
  intro s hs
  obtain ⟨a, ha⟩ := hw s hs
  have hrun : w.run s = (some a, (w.run s).2) := Prod.ext ha rfl
  obtain ⟨b, hb⟩ := hf a _ (answers_run w hs)
  exact ⟨b, run_bind_eq_some_iff.mpr ⟨a, _, hrun, hb⟩⟩

end Work

theorem load_ends (path : Path) : (load path).Ends := by
  intro s hs
  simp only [load, Work.run]
  split
  · exact ⟨_, rfl⟩
  · simp only [Work.run]
    have hsource := hs path
    split
    · rename_i hbroken
      exact absurd hbroken hsource
    · exact ⟨_, rfl⟩
    · exact ⟨_, rfl⟩
    · split
      · exact ⟨_, rfl⟩
      · exact ⟨_, rfl⟩

theorem isChained_ends (paths : TrustPaths) (leaf : Certificate) : (isChained paths leaf).Ends := by
  apply (load_ends _).bind
  intro intermediate
  cases intermediate with
  | error _ => exact Work.ends_done false
  | ok intermediate =>
    apply (load_ends _).bind
    intro root
    cases root with
    | error _ => exact Work.ends_done false
    | ok root => exact Work.ends_done _

end PolicySeal.Trust
