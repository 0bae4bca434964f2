import Mathlib.Data.List.Forall2
import Mathlib.Data.List.Perm.Subperm
import PolicySeal.Proofs.Json.Tree
/-
  PolicySeal.Proofs.Json.Same — which differences the equality of documents looks over.

  `same` takes objects as maps (`same_object_iff`) and zeros as equal whatever their sign. What
  it looks over is the layout: the order of the members in objects that correspond to each
  other, and the signs of zeros. Values that are the same and have the same layout are equal
  (`same_and_sameLayout_iff`), so nothing else is looked over.
-/

namespace PolicySeal.Json

open Decimal

/-- Equal as documents. -/
def Same (v w : Json) : Prop := same v w = true

/-! ## Equal as documents -/

@[simp] theorem Number.same_refl (n : Number) : n.same n = true := by
  cases n <;> simp [Number.same, Double.same]

/-- Numbers that are the same are equal, or zeros. -/
theorem Number.same_iff {a b : Number} :
    a.same b = true ↔ a = b ∨ ∃ x y : Double, a = .float x ∧ b = .float y ∧ x.isZero = true ∧ y.isZero = true := by
  cases a <;> cases b <;> simp [Number.same, Double.same]

theorem sameItems_iff {as bs : List Json} : sameItems as bs = true ↔ List.Forall₂ Same as bs := by
  induction as generalizing bs with
  | nil => cases bs <;> simp [sameItems]
  | cons a as ih =>
    cases bs with
    | nil => simp [sameItems]
    | cons b bs => rw [sameItems, Bool.and_eq_true, ih, List.forall₂_cons, Same]

theorem sameMembers_iff {as bs : Members} :
    sameMembers as bs = true ↔ ∀ m ∈ as, ∃ b, Members.get? bs m.1 = some b ∧ Same m.2 b := by
  induction as with
  | nil => simp [sameMembers]
  | cons m as ih =>
    rw [sameMembers, Bool.and_eq_true, ih, List.forall_mem_cons]
    refine and_congr_left fun _ => ?_
    cases Members.get? bs m.1 <;> simp [Same]

theorem same_array_iff {as bs : List Json} : Same (.array as) (.array bs) ↔ List.Forall₂ Same as bs := by
  rw [Same, same, sameItems_iff]

/-- Objects in which every key stands once are the same when a lookup of any key finds the same. -/
theorem same_object_iff {as bs : Members} (ha : Members.Distinct as) (hb : Members.Distinct bs) :
    Same (.object as) (.object bs) ↔ ∀ k, Option.Rel Same (Members.get? as k) (Members.get? bs k) := by
  rw [Same, same, Bool.and_eq_true, beq_iff_eq, sameMembers_iff]
  constructor
  · rintro ⟨hlength, hmembers⟩ k
    -- The keys of the one are among those of the other, and no fewer.
    have hsub : Members.keys as ⊆ Members.keys bs := by
      intro j hj
      obtain ⟨m, hm, rfl⟩ := List.mem_map.mp hj
      obtain ⟨b, hget, -⟩ := hmembers m hm
      exact Members.mem_keys_of_mem (m := (m.1, b)) (Members.mem_of_get? hget)
    have hperm : (Members.keys as).Perm (Members.keys bs) :=
      (List.subperm_of_subset ha hsub).perm_of_length_le (by simp [Members.keys, hlength])
    cases hget : Members.get? as k with
    | some a =>
      obtain ⟨b, hb', hsame⟩ := hmembers _ (Members.mem_of_get? hget)
      rw [hb']
      exact .some hsame
    | none =>
      have hk : k ∉ Members.keys bs := fun hk => Members.get?_eq_none_iff.mp hget (hperm.mem_iff.mpr hk)
      rw [Members.get?_eq_none_iff.mpr hk]
      exact .none
  · intro h
    have hkeys : ∀ k, k ∈ Members.keys as ↔ k ∈ Members.keys bs := by
      intro k
      have hk := h k
      rw [← not_iff_not, ← Members.get?_eq_none_iff, ← Members.get?_eq_none_iff]
      generalize Members.get? as k = a at hk
      generalize Members.get? bs k = b at hk
      cases hk <;> simp
    refine ⟨?_, fun m hm => ?_⟩
    · have hperm := (List.perm_ext_iff_of_nodup ha hb).mpr hkeys
      simpa [Members.keys] using hperm.length_eq
    · have hk := h m.1
      rw [ha.get?_of_mem hm] at hk
      generalize hget : Members.get? bs m.1 = b at hk
      cases hk with
      | some hsame => exact ⟨_, rfl, hsame⟩

theorem same_refl {v : Json} (hv : Distinct v) : Same v v := by
  induction v using Json.induct with
  | null => rfl
  | bool b => exact beq_self_eq_true b
  | number n => exact n.same_refl
  | string s => exact beq_self_eq_true s
  | array items ih =>
    refine same_array_iff.mpr (List.forall₂_same.mpr fun v hmem => ih v hmem ?_)
    exact distinct_array.mp hv v hmem
  | object ms ih =>
    obtain ⟨hms, hvalues⟩ := distinct_object.mp hv
    refine (same_object_iff hms hms).mpr fun k => ?_
    cases hget : Members.get? ms k with
    | none => exact .none
    | some v =>
      have hmem := Members.mem_of_get? hget
      exact .some (ih _ hmem (hvalues _ hmem))

/-! ## The layout -/

mutual

/-- Where objects correspond to each other, their members stand in the same order, and where numbers do, they have the
same sign, zeros included. -/
def sameLayout : Json → Json → Bool
  | .number (.float a), .number (.float b) => a.negative == b.negative
  | .array as, .array bs => sameItemLayouts as bs
  | .object as, .object bs => sameMemberLayouts as bs
  | _, _ => true

def sameItemLayouts : List Json → List Json → Bool
  | [], [] => true
  | a :: as, b :: bs => sameLayout a b && sameItemLayouts as bs
  | _, _ => false

def sameMemberLayouts : List (String × Json) → List (String × Json) → Bool
  | [], [] => true
  | (k, a) :: as, (l, b) :: bs => k == l && sameLayout a b && sameMemberLayouts as bs
  | _, _ => false

end

/-- Laid out alike. -/
def SameLayout (v w : Json) : Prop := sameLayout v w = true

instance (v w : Json) : Decidable (SameLayout v w) := inferInstanceAs (Decidable (_ = _))

theorem sameLayout_array_iff {as bs : List Json} :
    SameLayout (.array as) (.array bs) ↔ List.Forall₂ SameLayout as bs := by
  rw [SameLayout, sameLayout]
  induction as generalizing bs with
  | nil => cases bs <;> simp [sameItemLayouts]
  | cons a as ih =>
    cases bs with
    | nil => simp [sameItemLayouts]
    | cons b bs => rw [sameItemLayouts, Bool.and_eq_true, ih, List.forall₂_cons, SameLayout]

theorem sameLayout_object_iff {as bs : Members} :
    SameLayout (.object as) (.object bs) ↔ List.Forall₂ (fun a b => a.1 = b.1 ∧ SameLayout a.2 b.2) as bs := by
  rw [SameLayout, sameLayout]
  induction as generalizing bs with
  | nil => cases bs <;> simp [sameMemberLayouts]
  | cons a as ih =>
    cases bs with
    | nil => simp [sameMemberLayouts]
    | cons b bs =>
      rw [sameMemberLayouts, Bool.and_eq_true, Bool.and_eq_true, beq_iff_eq, ih, List.forall₂_cons, SameLayout]

theorem sameLayout_refl (v : Json) : SameLayout v v := by
  induction v using Json.induct with
  | number n => cases n <;> simp [SameLayout, sameLayout]
  | array items ih => exact sameLayout_array_iff.mpr (List.forall₂_same.mpr ih)
  | object ms ih => exact sameLayout_object_iff.mpr (List.forall₂_same.mpr fun m hm => ⟨rfl, ih m hm⟩)
  | _ => rfl

/-! ## Nothing else is looked over -/

theorem Number.eq_of_same {a b : Number} (hsame : a.same b = true) (hlayout : SameLayout (.number a) (.number b)) :
    a = b := by
  rcases same_iff.mp hsame with rfl | ⟨⟨nx, rx, _⟩, ⟨ny, ry, _⟩, rfl, rfl, hx, hy⟩
  · rfl
  · simp only [Double.isZero, beq_iff_eq] at hx hy
    simp only [SameLayout, sameLayout, beq_iff_eq] at hlayout
    subst hx hy hlayout
    rfl

/-- Lists in which what corresponds is equal. -/
theorem eq_of_forall₂ {α : Type} {R : α → α → Prop} {as bs : List α} (h : List.Forall₂ R as bs)
    (heq : ∀ a ∈ as, ∀ b ∈ bs, R a b → a = b) : as = bs := by
  obtain ⟨hlength, hzip⟩ := List.forall₂_iff_zip.mp h
  refine List.forall₂_eq_eq_eq ▸ List.forall₂_iff_zip.mpr ⟨hlength, fun {a b} hab => ?_⟩
  obtain ⟨ha, hb⟩ := List.of_mem_zip hab
  exact heq a ha b hb (hzip hab)

theorem eq_of_same {v w : Json} (hw : Distinct w) (hsame : Same v w) (hlayout : SameLayout v w) : v = w := by
  induction v using Json.induct generalizing w with
  | null => cases w <;> first | rfl | cases hsame
  | bool b =>
    cases w with
    | bool c => rw [eq_of_beq hsame]
    | _ => cases hsame
  | string s =>
    cases w with
    | string t => rw [eq_of_beq hsame]
    | _ => cases hsame
  | number a =>
    cases w with
    | number b => rw [Number.eq_of_same hsame hlayout]
    | _ => cases hsame
  | array as ih =>
    cases w with
    | array bs =>
      have hboth : List.Forall₂ (fun a b => Same a b ∧ SameLayout a b) as bs := by
        obtain ⟨hlength, hsames⟩ := List.forall₂_iff_zip.mp (same_array_iff.mp hsame)
        obtain ⟨-, hlayouts⟩ := List.forall₂_iff_zip.mp (sameLayout_array_iff.mp hlayout)
        exact List.forall₂_iff_zip.mpr ⟨hlength, fun hab => ⟨hsames hab, hlayouts hab⟩⟩
      rw [eq_of_forall₂ hboth fun a ha b hb hab => ih a ha (distinct_array.mp hw b hb) hab.1 hab.2]
    | _ => cases hsame
  | object as ih =>
    cases w with
    | object bs =>
      obtain ⟨hbs, hvalues⟩ := distinct_object.mp hw
      obtain ⟨-, hmembers⟩ := (Bool.and_eq_true _ _).mp hsame
      refine congrArg _ (eq_of_forall₂ (sameLayout_object_iff.mp hlayout) fun a ha b hb hab => ?_)
      -- What a lookup of the key finds is the member in the same place.
      obtain ⟨b', hget, hab'⟩ := sameMembers_iff.mp hmembers a ha
      rw [hab.1, hbs.get?_of_mem hb] at hget
      cases hget
      exact Prod.ext hab.1 (ih a ha (hvalues b hb) hab' hab.2)
    | _ => cases hsame

/-- Values that are the same and laid out alike are equal. -/
theorem same_and_sameLayout_iff {v w : Json} (hw : Distinct w) : Same v w ∧ SameLayout v w ↔ v = w := by
  constructor
  · rintro ⟨hsame, hlayout⟩
    exact eq_of_same hw hsame hlayout
  · rintro rfl
    exact ⟨same_refl hw, sameLayout_refl v⟩

end PolicySeal.Json
