import Mathlib.Logic.Hydra
import PolicySeal.Proofs.Binding.Evidence
import PolicySeal.Proofs.Trust.Interleaving
/-
  PolicySeal.Proofs.Binding.Batch — many policies verified at the same time.

  Every policy of a batch gets a task of its own, in order and as long as there are fewer tasks
  than the limit; the tasks share the store and take their actions in any order (`Service.Step`).
  A task ends with a verdict, or breaks down and leaves none. Verifying a policy loads the
  certificate first and then the chain from below, so it leads to what it comes to alone
  (`leads_verifyAuto`), whatever the others keep or drop. Hence no batch gets stuck or goes on for
  ever, and in the end every policy has the verdict that it gets alone, in its place; one whose
  task broke down has that of a verification that did not complete (`verifyBatch_isolated`). What
  all tasks keep with every action, a batch has at any moment (`Kept.run`).
-/

namespace PolicySeal

open Trust

/-! ## Verifying one policy -/

namespace Service

variable {s : Service} {p : Policy} {X : Setting}

/-- The paths that verifying loads, in their order. -/
def route (s : Service) : List Path := s.config.certificatePath.toList ++ [s.paths.intermediateCert, s.paths.rootCert]

theorem steady_verifyUnder {k : Setting.Known} {h : Hash} {signature : Bytes} {c : Certificate} {verifyChain : Bool}
    (hintermediate : X.OnRoute k s.paths.intermediateCert)
    (hroot : X.OnRoute ⟨true, s.paths.intermediateCert :: k.paths⟩ s.paths.rootCert) :
    X.Steady k (s.verifyUnder p h signature c verifyChain) := by
  rw [verifyUnder]
  refine Setting.steady_clock ?_
  split
  · exact Setting.steady_done _
  · split
    · refine (Setting.steady_isChained c hintermediate hroot).bind_done (g := fun chained =>
        if chained then keyVerdict p h signature c
        else .failed .x509 .chainValidation "Certificate chain validation failed") fun chained => ?_
      cases chained <;> rfl
    · exact Setting.steady_done _

theorem steady_verifyConfigured {path : Path} (hroute : X.route = s.route) (hpath : s.config.certificatePath = some path) :
    X.Steady {} (s.verifyConfigured p path) := by
  have hpaths : X.route = path :: s.paths.intermediateCert :: [s.paths.rootCert] := by rw [hroute, route, hpath]; rfl
  rw [verifyConfigured, verifyAtPath]
  split
  · exact Setting.steady_done _
  · have hfirst : X.OnRoute {} path := Setting.onRoute_of_append [] hpaths fun y hy => absurd hy List.not_mem_nil
    refine Setting.steady_load hfirst (fun c => ?_) fun fault => Setting.steady_done _
    exact steady_verifyUnder (Setting.onRoute_of_append [path] hpaths fun y hy => hy)
      (Setting.onRoute_of_append [path, s.paths.intermediateCert] hpaths fun y hy => by simpa [or_comm] using hy)

theorem steady_verifyAuto (hroute : X.route = s.route) : X.Steady {} (s.verifyAuto p) := by
  rw [verifyAuto]
  split
  · exact Setting.steady_done _
  · split
    · exact Setting.steady_done _
    · split
      · exact steady_verifyConfigured hroute ‹_›
      · exact Setting.steady_done _
    · split <;> exact Setting.steady_done _
    · rw [verifyOpen]
      split
      · exact Setting.steady_done _
      · exact Setting.steady_done _
      · exact steady_verifyConfigured hroute ‹_›
      · exact (steady_verifyConfigured hroute ‹_›).bind_done fun _ => rfl

/-- Verifying a policy leads to what it comes to alone at the start. -/
theorem leads_verifyAuto (hroute : X.route = s.route) :
    X.Leads {} (s.verifyAuto p) fun a _ => a = ((s.verifyAuto p).run X.store).1 :=
  (steady_verifyAuto hroute).leads_run

end Service

/-! ## Batches -/

/-- A batch that is under way. Every policy has a place. -/
structure Batch where
  store : Store
  /-- The policies that have no task yet. -/
  waiting : List (Policy × Nat)
  /-- What the tasks have left to do. -/
  tasks : List (Work Verdict × Nat)
  /-- The verdicts that tasks ended with, in the order of their ends. -/
  verdicts : List (Verdict × Nat)

namespace Batch

def start (store : Store) (ps : List Policy) : Batch := ⟨store, ps.zipIdx, [], []⟩

def IsOver (b : Batch) : Prop := b.waiting = [] ∧ b.tasks = []

/-- The verdicts put into their places one after the other. -/
def slots (total : Nat) (verdicts : List (Verdict × Nat)) : List (Option Verdict) :=
  verdicts.foldl (fun slots v => slots.set v.2 (some v.1)) (List.replicate total none)

/-- The verdicts in their places; where there is none, verification did not complete. -/
def collect (total : Nat) (verdicts : List (Verdict × Nat)) : List Verdict :=
  (slots total verdicts).map (·.getD Service.didNotComplete)

end Batch

namespace Service

/-- What can happen next in a batch. -/
inductive Step (s : Service) (b : Batch) : Batch → Prop
  /-- The next policy gets a task, if there are fewer than the limit, which is at least one. -/
  | spawn {p : Policy} {i : Nat} {rest : List (Policy × Nat)} (hwaiting : b.waiting = (p, i) :: rest)
      (hlimit : b.tasks.length < max 1 s.config.batchConcurrency) :
      Step s b { b with waiting := rest, tasks := b.tasks ++ [(s.verifyAuto p, i)] }
  /-- Any task takes its next action. -/
  | act {before after : List (Work Verdict × Nat)} {w w' : Work Verdict} {i : Nat} {store' : Store}
      (htasks : b.tasks = before ++ (w, i) :: after) (hnext : w.next? b.store = some (w', store')) :
      Step s b { b with store := store', tasks := before ++ (w', i) :: after }
  /-- A task ends. -/
  | finish {before after : List (Work Verdict × Nat)} {v : Verdict} {i : Nat}
      (htasks : b.tasks = before ++ (.done v, i) :: after) :
      Step s b { b with tasks := before ++ after, verdicts := b.verdicts ++ [(v, i)] }
  /-- A task breaks down. -/
  | crash {before after : List (Work Verdict × Nat)} {i : Nat} (htasks : b.tasks = before ++ (.broken, i) :: after) :
      Step s b { b with tasks := before ++ after }

/-- A batch that is not over goes on. -/
theorem step_of_not_isOver (s : Service) {b : Batch} (hb : ¬ b.IsOver) : ∃ b', s.Step b b' := by
  cases htasks : b.tasks with
  | cons task rest =>
    obtain ⟨w, i⟩ := task
    cases hnext : w.next? b.store with
    | some next => exact ⟨_, .act (show b.tasks = [] ++ (w, i) :: rest from htasks) hnext⟩
    | none =>
      rcases Work.run_of_next?_eq_none hnext with ⟨-, rfl⟩ | ⟨v, -, rfl⟩
      · exact ⟨_, .crash (show b.tasks = [] ++ (.broken, i) :: rest from htasks)⟩
      · exact ⟨_, .finish (show b.tasks = [] ++ (.done v, i) :: rest from htasks)⟩
  | nil =>
    cases hwaiting : b.waiting with
    | nil => exact absurd ⟨hwaiting, htasks⟩ hb
    | cons policy rest =>
      refine ⟨_, .spawn hwaiting ?_⟩
      rw [htasks, List.length_nil]
      omega

/-! ## No batch goes on for ever -/

/-- What is left to do for a policy. -/
inductive Pending where
  | waiting
  | task (w : Work Verdict)

/-- What may be left next of what is left to do. -/
inductive Pending.Next : Pending → Pending → Prop
  | act {w w' : Work Verdict} {store store' : Store} (hnext : w.next? store = some (w', store')) : Next (.task w') (.task w)
  | spawn (w : Work Verdict) : Next (.task w) .waiting

theorem Pending.next_wellFounded : WellFounded Pending.Next := by
  have htask : ∀ w, Acc Pending.Next (.task w) := by
    intro w
    induction w with
    | done a => exact ⟨_, fun _ h => by cases h with | act hnext => cases hnext⟩
    | broken => exact ⟨_, fun _ h => by cases h with | act hnext => cases hnext⟩
    | clock next ih => exact ⟨_, fun _ h => by cases h with | act hnext => cases hnext; exact ih _⟩
    | evict now next ih => exact ⟨_, fun _ h => by cases h with | act hnext => cases hnext; exact ih⟩
    | lookup path next ih => exact ⟨_, fun _ h => by cases h with | act hnext => cases hnext; exact ih _⟩
    | read path next ih => exact ⟨_, fun _ h => by cases h with | act hnext => cases hnext; exact ih _⟩
    | insert entry next ih => exact ⟨_, fun _ h => by cases h with | act hnext => cases hnext; exact ih⟩
  refine ⟨fun x => ?_⟩
  cases x with
  | task w => exact htask w
  | waiting => exact ⟨_, fun _ h => by cases h with | spawn w => exact htask w⟩

/-- All that is left to do in a batch. -/
def pending (b : Batch) : Multiset Pending :=
  Multiset.ofList (b.waiting.map fun _ => .waiting) + Multiset.ofList (b.tasks.map fun t => .task t.1)

theorem ofList_middle {α : Type} (xs : List α) (a : α) (ys : List α) :
    Multiset.ofList (xs ++ a :: ys) = Multiset.ofList (xs ++ ys) + {a} := by
  rw [Multiset.coe_eq_coe.mpr List.perm_middle, ← Multiset.cons_coe, ← Multiset.singleton_add, add_comm]

/-- With every step, a thing that is left turns into what may be left next, or is done. -/
theorem Step.cutExpand {s : Service} {b b' : Batch} (h : s.Step b b') :
    Relation.CutExpand Pending.Next (pending b') (pending b) := by
  have hdone : ∀ (a : Pending) (rest : Multiset Pending), Relation.CutExpand Pending.Next rest (rest + {a}) :=
    fun a rest => ⟨0, a, nofun, (add_zero _).symm⟩
  cases h with
  | @spawn p i rest hwaiting hlimit =>
    refine ⟨{.task (s.verifyAuto p)}, .waiting, fun x hx => ?_, ?_⟩
    · rw [Multiset.mem_singleton.mp hx]
      exact .spawn _
    · have hfirst : Multiset.ofList (.waiting :: rest.map fun _ => Pending.waiting)
          = Multiset.ofList (rest.map fun _ => .waiting) + {.waiting} := ofList_middle [] _ _
      simp only [pending, hwaiting, List.map_cons, List.map_append, List.map_nil, hfirst, ofList_middle, List.append_nil]
      ac_rfl
  | act htasks hnext =>
    simp only [pending, htasks, List.map_append, List.map_cons, ofList_middle, ← add_assoc]
    exact Relation.cutExpand_add_single _ (.act hnext)
  | finish htasks =>
    simp only [pending, htasks, List.map_append, List.map_cons, ofList_middle, ← add_assoc]
    exact hdone _ _
  | crash htasks =>
    simp only [pending, htasks, List.map_append, List.map_cons, ofList_middle, ← add_assoc]
    exact hdone _ _

theorem not_forever (s : Service) (run : Nat → Batch) : ∃ n, ¬ s.Step (run n) (run (n + 1)) := by
  by_contra hforever
  have hwf := Pending.next_wellFounded.cutExpand
  refine (wellFounded_iff_isEmpty_descending_chain.mp hwf).false ⟨fun n => pending (run n), fun n => ?_⟩
  exact (not_exists_not.mp hforever n).cutExpand

end Service

/-! ## What a batch comes to -/

namespace Batch

variable {X : Setting} {s : Service} {ps : List Policy} {b b' : Batch}

/-- The places of the policies that are waiting, have a task, or have a verdict. -/
def places (b : Batch) : List Nat := b.waiting.map (·.2) ++ (b.tasks.map (·.2) ++ b.verdicts.map (·.2))

/-- The task is on one of the policies, and leads to what that comes to alone at the start. -/
def Awaits (X : Setting) (s : Service) (ps : List Policy) (cache : Cache) (task : Work Verdict × Nat) : Prop :=
  ∃ p k, ps[task.2]? = some p ∧ X.Knows cache k ∧ X.Leads k task.1 fun a _ => a = ((s.verifyAuto p).run X.store).1

/-- What a batch on some policies is like at any time. -/
structure Sound (X : Setting) (s : Service) (ps : List Policy) (b : Batch) : Prop where
  during : X.During b.store
  waiting : ∀ t ∈ b.waiting, ps[t.2]? = some t.1
  tasks : ∀ t ∈ b.tasks, Awaits X s ps b.store.cache t
  verdicts : ∀ v ∈ b.verdicts, ∃ p, ps[v.2]? = some p ∧ ((s.verifyAuto p).run X.store).1 = some v.1
  /-- No policy gets lost, but for those whose verification breaks down. -/
  places : ∀ i p, ps[i]? = some p → ((s.verifyAuto p).run X.store).1 = none ∨ i ∈ b.places

theorem sound_start (X : Setting) (s : Service) (ps : List Policy) : Sound X s ps (.start X.store ps) where
  during := X.during_start
  waiting _ ht := List.mem_zipIdx_iff_getElem?.mp ht
  tasks _ ht := absurd ht List.not_mem_nil
  verdicts _ hv := absurd hv List.not_mem_nil
  places i p hp := by
    have hmem : (p, i) ∈ ps.zipIdx := List.mem_zipIdx_iff_getElem?.mpr hp
    exact Or.inr (List.mem_append_left _ (List.mem_map_of_mem hmem))

theorem mem_places_step (h : s.Step b b') {i : Nat} (hi : i ∈ b.places) : i ∈ b'.places ∨ (.broken, i) ∈ b.tasks := by
  cases h with
  | spawn hwaiting _ =>
    simp only [places, hwaiting, List.map_cons, List.map_append, List.map_nil, List.mem_append, List.mem_cons] at hi ⊢
    tauto
  | act htasks _ =>
    simp only [places, htasks, List.map_cons, List.map_append, List.mem_append, List.mem_cons] at hi ⊢
    tauto
  | finish htasks =>
    simp only [places, htasks, List.map_cons, List.map_append, List.map_nil, List.mem_append, List.mem_cons] at hi ⊢
    tauto
  | crash htasks =>
    simp only [places, htasks, List.map_cons, List.map_append, List.mem_append, List.mem_cons, Prod.mk.injEq, true_and]
      at hi ⊢
    tauto

theorem Awaits.moves {cache cache' : Cache} {t : Work Verdict × Nat} (h : Awaits X s ps cache t)
    (hm : X.Moves cache cache') : Awaits X s ps cache' t := by
  obtain ⟨p, k, hp, hk, hl⟩ := h
  exact ⟨p, k, hp, hk.moves hm, hl⟩

theorem mem_middle {α : Type} {xs ys : List α} {x t : α} : t ∈ xs ++ x :: ys ↔ t = x ∨ t ∈ xs ++ ys :=
  List.perm_middle.mem_iff.trans List.mem_cons

/-- A step takes nothing of it away: the task that moves leads on to the same, and the others know what they knew. -/
theorem Sound.step (hroute : X.route = s.route) (hb : Sound X s ps b) (h : s.Step b b') : Sound X s ps b' := by
  have hplaces : ∀ i p, ps[i]? = some p → ((s.verifyAuto p).run X.store).1 = none ∨ i ∈ b'.places := by
    intro i p hp
    rcases hb.places i p hp with hnone | hi
    · exact Or.inl hnone
    · rcases mem_places_step h hi with hi | hbroken
      · exact Or.inr hi
      · obtain ⟨q, _, hq, -, hnone⟩ := hb.tasks _ hbroken
        rw [hp] at hq
        cases hq
        exact Or.inl hnone.symm
  cases h with
  | @spawn p i rest hwaiting _ =>
    have hrest : ∀ t ∈ (p, i) :: rest, ps[t.2]? = some t.1 := hwaiting ▸ hb.waiting
    refine ⟨hb.during, fun t ht => hrest t (List.mem_cons_of_mem _ ht), fun t ht => ?_, hb.verdicts, hplaces⟩
    rcases List.mem_append.mp ht with ht | ht
    · exact hb.tasks t ht
    · rw [List.mem_singleton.mp ht]
      exact ⟨p, {}, hrest _ List.mem_cons_self, Setting.knows_nothing, Service.leads_verifyAuto hroute⟩
  | @act before after w w' i store' htasks hnext =>
    have hall : ∀ t ∈ before ++ (w, i) :: after, Awaits X s ps b.store.cache t := htasks ▸ hb.tasks
    obtain ⟨p, k, hp, hk, hl⟩ := hall (w, i) (mem_middle.mpr (Or.inl rfl))
    obtain ⟨hmove, hduring, k', hk', hl'⟩ := hl.next hb.during hk hnext
    refine ⟨hduring, hb.waiting, fun t ht => ?_, hb.verdicts, hplaces⟩
    rcases mem_middle.mp ht with rfl | ht
    · exact ⟨p, k', hp, hk', hl'⟩
    · exact (hall t (mem_middle.mpr (Or.inr ht))).moves hmove
  | @finish before after v i htasks =>
    have hall : ∀ t ∈ before ++ (.done v, i) :: after, Awaits X s ps b.store.cache t := htasks ▸ hb.tasks
    obtain ⟨p, k, hp, -, hv⟩ := hall (.done v, i) (mem_middle.mpr (Or.inl rfl))
    refine ⟨hb.during, hb.waiting, fun t ht => hall t (mem_middle.mpr (Or.inr ht)), fun u hu => ?_, hplaces⟩
    rcases List.mem_append.mp hu with hu | hu
    · exact hb.verdicts u hu
    · rw [List.mem_singleton.mp hu]
      exact ⟨p, hp, hv.symm⟩
  | @crash before after i htasks =>
    have hall : ∀ t ∈ before ++ (.broken, i) :: after, Awaits X s ps b.store.cache t := htasks ▸ hb.tasks
    exact ⟨hb.during, hb.waiting, fun t ht => hall t (mem_middle.mpr (Or.inr ht)), hb.verdicts, hplaces⟩

/-! ## What is collected in the end -/

theorem slots_concat (total : Nat) (vs : List (Verdict × Nat)) (v : Verdict × Nat) :
    slots total (vs ++ [v]) = (slots total vs).set v.2 (some v.1) := by
  rw [slots, List.foldl_append]
  rfl

theorem length_slots (total : Nat) (vs : List (Verdict × Nat)) : (slots total vs).length = total := by
  induction vs using List.reverseRecOn with
  | nil => exact List.length_replicate
  | append_singleton vs v ih => rw [slots_concat, List.length_set, ih]

/-- A place has a verdict that was put there, or none was. -/
theorem getElem?_slots {total i : Nat} (hi : i < total) (vs : List (Verdict × Nat)) :
    (∃ v ∈ vs, v.2 = i ∧ (slots total vs)[i]? = some (some v.1)) ∨
      (∀ v ∈ vs, v.2 ≠ i) ∧ (slots total vs)[i]? = some none := by
  induction vs using List.reverseRecOn with
  | nil => exact Or.inr ⟨fun v hv => absurd hv List.not_mem_nil, by simp [slots, hi]⟩
  | append_singleton vs v ih =>
    have hlast : v ∈ vs ++ [v] := List.mem_append_right _ (List.mem_singleton_self v)
    rw [slots_concat]
    by_cases hv : v.2 = i
    · exact Or.inl ⟨v, hlast, hv, by rw [hv, List.getElem?_set_self (by rwa [length_slots])]⟩
    · rw [List.getElem?_set_ne hv]
      rcases ih with ⟨u, hu, hplace⟩ | ⟨hnone, hempty⟩
      · exact Or.inl ⟨u, List.mem_append_left _ hu, hplace⟩
      · refine Or.inr ⟨fun u hu => ?_, hempty⟩
        rcases List.mem_append.mp hu with hu | hu
        · exact hnone u hu
        · rwa [List.mem_singleton.mp hu]

/-- What is collected arrived, or is the verdict on a verification that did not complete. -/
theorem mem_collect {total : Nat} {vs : List (Verdict × Nat)} {v : Verdict} (h : v ∈ collect total vs) :
    v = Service.didNotComplete ∨ ∃ u ∈ vs, u.1 = v := by
  obtain ⟨slot, hslot, rfl⟩ := List.mem_map.mp h
  obtain ⟨i, hi, hget⟩ := List.mem_iff_getElem.mp hslot
  rw [length_slots] at hi
  have hplace : (slots total vs)[i]? = some slot := hget ▸ List.getElem?_eq_getElem _
  rcases getElem?_slots hi vs with ⟨u, hu, -, harrived⟩ | ⟨-, hempty⟩
  · obtain rfl : slot = some u.1 := Option.some.inj (hplace.symm.trans harrived)
    exact Or.inr ⟨u, hu, rfl⟩
  · obtain rfl : slot = none := Option.some.inj (hplace.symm.trans hempty)
    exact Or.inl rfl

/-- When the batch is over, what is collected are the verdicts that the policies get alone, in whatever order they
are put into their places. -/
theorem Sound.collect (hb : Sound X s ps b) (hover : b.IsOver) {arrived : List (Verdict × Nat)}
    (harrived : arrived.Perm b.verdicts) :
    collect ps.length arrived = ps.map fun p => (((s.verifyAuto p).run X.store).1).getD Service.didNotComplete := by
  obtain ⟨hwaiting, htasks⟩ := hover
  apply List.ext_getElem?
  intro i
  rw [Batch.collect, List.getElem?_map, List.getElem?_map]
  by_cases hi : i < ps.length
  · obtain ⟨p, hp⟩ : ∃ p, ps[i]? = some p := ⟨_, List.getElem?_eq_getElem hi⟩
    rcases getElem?_slots hi arrived with ⟨v, hv, rfl, hslot⟩ | ⟨hnone, hslot⟩
    · obtain ⟨q, hq, hverdict⟩ := hb.verdicts v (harrived.mem_iff.mp hv)
      simp [hslot, hq, hverdict]
    · have halone : ((s.verifyAuto p).run X.store).1 = none := by
        refine (hb.places i p hp).resolve_right fun hi => ?_
        simp only [Batch.places, hwaiting, htasks, List.map_nil, List.nil_append, List.mem_map] at hi
        obtain ⟨v, hv, hplace⟩ := hi
        exact hnone v (harrived.mem_iff.mpr hv) hplace
      simp [hslot, hp, halone]
  · have hslots : (slots ps.length arrived)[i]? = none :=
      List.getElem?_eq_none (by rw [length_slots]; exact Nat.le_of_not_lt hi)
    rw [hslots, List.getElem?_eq_none (Nat.le_of_not_lt hi)]
    rfl

theorem sound_of_run (hroute : X.route = s.route) (h : Relation.ReflTransGen s.Step (.start X.store ps) b) :
    Sound X s ps b := by
  induction h with
  | refl => exact sound_start X s ps
  | tail _ hstep ih => exact ih.step hroute hstep

/-! ## What tasks keep -/

/-- Properties of the store and of what tasks have left to do, which every task has when it starts, and keeps with every
action, its own and those of others; and one of the verdicts that tasks end with. -/
structure Kept (s : Service) (I : Store → Prop) (T : Store → Work Verdict → Prop) (V : Verdict → Prop) : Prop where
  spawn : ∀ store p, T store (s.verifyAuto p)
  act : ∀ {store store' : Store} {w w' : Work Verdict}, I store → T store w → w.next? store = some (w', store') →
    I store' ∧ T store' w' ∧ ∀ u, T store u → T store' u
  finish : ∀ store v, T store (.done v) → V v

/-- The batch has them. -/
structure Has (I : Store → Prop) (T : Store → Work Verdict → Prop) (V : Verdict → Prop) (b : Batch) : Prop where
  store : I b.store
  tasks : ∀ t ∈ b.tasks, T b.store t.1
  verdicts : ∀ v ∈ b.verdicts, V v.1

variable {I : Store → Prop} {T : Store → Work Verdict → Prop} {V : Verdict → Prop}

theorem Kept.step (hkept : Kept s I T V) (hb : b.Has I T V) (h : s.Step b b') : b'.Has I T V := by
  cases h with
  | spawn =>
    refine ⟨hb.store, fun t ht => ?_, hb.verdicts⟩
    rcases List.mem_append.mp ht with ht | ht
    · exact hb.tasks t ht
    · rw [List.mem_singleton.mp ht]
      exact hkept.spawn _ _
  | act htasks hnext =>
    obtain ⟨hstore, hw, hothers⟩ := hkept.act hb.store (hb.tasks _ (htasks ▸ mem_middle.mpr (Or.inl rfl))) hnext
    refine ⟨hstore, fun t ht => ?_, hb.verdicts⟩
    rcases mem_middle.mp ht with rfl | ht
    · exact hw
    · exact hothers t.1 (hb.tasks t (htasks ▸ mem_middle.mpr (Or.inr ht)))
  | finish htasks =>
    refine ⟨hb.store, fun t ht => hb.tasks t (htasks ▸ mem_middle.mpr (Or.inr ht)), fun v hv => ?_⟩
    rcases List.mem_append.mp hv with hv | hv
    · exact hb.verdicts v hv
    · rw [List.mem_singleton.mp hv]
      exact hkept.finish _ _ (hb.tasks _ (htasks ▸ mem_middle.mpr (Or.inl rfl)))
  | crash htasks => exact ⟨hb.store, fun t ht => hb.tasks t (htasks ▸ mem_middle.mpr (Or.inr ht)), hb.verdicts⟩

/-- So has every batch that starts on a store with the first. -/
theorem Kept.run (hkept : Kept s I T V) {store : Store} (hstart : I store)
    (h : Relation.ReflTransGen s.Step (.start store ps) b) : b.Has I T V := by
  induction h with
  | refl => exact ⟨hstart, fun _ ht => absurd ht List.not_mem_nil, fun _ hv => absurd hv List.not_mem_nil⟩
  | tail _ hstep ih => exact hkept.step ih hstep

end Batch

namespace Service

/-- One after the other, policies get the verdicts that they get alone. -/
theorem run_verifyAll {s : Service} {X : Setting} {store : Store} (hroute : X.route = s.route) (hs : X.During store)
    (ps : List Policy) : ((s.verifyAll ps).run store).1
      = some (ps.map fun p => (((s.verifyAuto p).run X.store).1).getD didNotComplete) := by
  induction ps generalizing store with
  | nil => rfl
  | cons p ps ih =>
    obtain ⟨hduring, -, hverdict⟩ := (leads_verifyAuto (p := p) hroute).run hs Setting.knows_nothing
    have hrest := ih hduring
    rw [verifyAll]
    refine Work.run_bind_eq_some_iff.mpr ⟨_, _, Work.run_attempt _ _, ?_⟩
    refine Work.run_bind_eq_some_iff.mpr ⟨_, _, Prod.ext hrest rfl, ?_⟩
    rw [Work.run_pure, hverdict, List.map_cons]

/-- A batch of policies, with any limit and any order of what its tasks do, on a store in any state: it does not go on
for ever, and as long as it is not over something can be done. When it is over, the verdicts that arrived, in whatever
order they are collected, give one verdict for each policy, in the order of the policies: the one that the policy gets
alone on the store as it was before, or that of a verification that did not complete where it breaks down alone. So
does verifying them one after the other. -/
theorem verifyBatch_isolated (s : Service) (config : TrustConfig) (source : Source) (now : Time.Instant) (cache : Cache)
    (ps : List Policy) :
    let store : Store := { source, ttl := config.ttl, now, cache }
    let verdicts := ps.map fun p => (((s.verifyAuto p).run store).1).getD didNotComplete
    (∀ run : Nat → Batch, ∃ n, ¬ s.Step (run n) (run (n + 1))) ∧
    (∀ b, Relation.ReflTransGen s.Step (.start store ps) b →
      (¬ b.IsOver → ∃ b', s.Step b b') ∧
      (b.IsOver → ∀ arrived, arrived.Perm b.verdicts → Batch.collect ps.length arrived = verdicts)) ∧
    ((s.verifyAll ps).run store).1 = some verdicts := by
  intro store verdicts
  let X : Setting := { store, route := s.route, ttl_nonneg := config.ttl_nonneg }
  refine ⟨s.not_forever, fun b hrun => ⟨s.step_of_not_isOver, fun hover arrived harrived => ?_⟩, ?_⟩
  · have hsound : Batch.Sound X s ps b := Batch.sound_of_run rfl hrun
    exact hsound.collect hover harrived
  · exact run_verifyAll (X := X) rfl X.during_start ps

/-- A policy whose block names the certificate. -/
def certifiedPolicy : Policy := plainPolicy.withSignature ⟨"SHA384", Base64.encode [0], "node", "2025-01-01T00:00:00Z"⟩

/-- A store whose source breaks down. -/
def brokenStore : Store := { source := fun _ => .broken, ttl := TrustConfig.ttl {}, now := ⟨0⟩, cache := [] }

theorem verifyAuto_certifiedPolicy :
    ∃ f, sealedNode.verifyAuto certifiedPolicy = (load ⟨"signing.crt"⟩ >>= f) := by
  have hparts : sealedNode.certificateParts certifiedPolicy = .ok (.sha384, [0]) :=
    certificateParts_eq_ok_iff.mpr ⟨_, rfl, .sha384, decodeSignatureValue_encode (by simp)⟩
  have hname : Scheme.ofName? "SHA384" = .ok (.x509 .sha384) := rfl
  have hconfigured : sealedNode.verifyAuto certifiedPolicy = sealedNode.verifyConfigured certifiedPolicy ⟨"signing.crt"⟩ := by
    simp only [verifyAuto, certifiedPolicy, Policy.withSignature, hname]
    rfl
  rw [hconfigured, verifyConfigured, verifyAtPath, hparts]
  exact ⟨_, rfl⟩

/-- Two tasks by turns: the first breaks down while it loads the certificate, the second has its verdict. -/
theorem brokenBatch_collected :
    ∃ b, Relation.ReflTransGen sealedNode.Step (.start brokenStore [certifiedPolicy, plainPolicy]) b ∧ b.IsOver ∧
      Batch.collect 2 b.verdicts = [didNotComplete, .unsigned false] := by
  obtain ⟨f, hf⟩ := verifyAuto_certifiedPolicy
  have hplain : sealedNode.verifyAuto plainPolicy = .done (.unsigned false) := rfl
  let b : Batch := ⟨brokenStore, [], [], [(.unsigned false, 1)]⟩
  have hrun : Relation.ReflTransGen sealedNode.Step (.start brokenStore [certifiedPolicy, plainPolicy]) b := by
    refine .head (.spawn rfl (show 0 < max 1 8 by decide)) ?_
    rw [hf]
    refine .head (.act (show _ = [] ++ _ :: [] from rfl) rfl) ?_
    refine .head (.spawn rfl (show 1 < max 1 8 by decide)) ?_
    rw [hplain]
    refine .head (.act (show _ = [] ++ _ :: [_] from rfl) rfl) ?_
    refine .head (.act (show _ = [] ++ _ :: [_] from rfl) rfl) ?_
    refine .head (.finish (show _ = [_] ++ _ :: [] from rfl)) ?_
    refine .head (.act (show _ = [] ++ _ :: [] from rfl) rfl) ?_
    exact .single (.crash (show _ = [] ++ _ :: [] from rfl))
  have hover : b.IsOver := ⟨rfl, rfl⟩
  obtain ⟨-, hcollected, -⟩ := verifyBatch_isolated sealedNode {} (fun _ => .broken) ⟨0⟩ [] [certifiedPolicy, plainPolicy]
  refine ⟨b, hrun, hover, ((hcollected b hrun).2 hover _ (List.Perm.refl _)).trans ?_⟩
  simp only [List.map_cons, List.map_nil, hf, hplain]
  rfl

end Service

end PolicySeal
