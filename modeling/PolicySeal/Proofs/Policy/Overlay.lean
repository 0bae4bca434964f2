import Mathlib.Data.List.Forall2
import PolicySeal.Policy.Document
import PolicySeal.Proofs.Json.Tree
/-
  PolicySeal.Proofs.Policy.Overlay — fields laid over a received document.

  As maps, the members that come out are told by a lookup in what was received and one in
  what is laid over it (`get?_overlay`). A received member that the laid values leave as it
  is stays in its place (`overlay_eq_self`), and a value laid over itself is itself
  (`overlayValue_self`).
-/

namespace PolicySeal

open Json

/-! ## Members as they come out -/

/-- What becomes of a received value when the member is laid over with another, or with none. -/
def kept (v : Json) : Option Json → Option Json
  | some w => some (overlayValue v w)
  | none => if v matches .null then some .null else none

/-- The same for a member that was received or not. -/
def laid : Option Json → Option Json → Option Json
  | some v, w => kept v w
  | none, w => w.filter fun w => !(w matches .array [])

theorem overlayValue_object (outer inner : Members) :
    overlayValue (.object outer) (.object inner) = .object (overlay outer inner) := by
  rw [overlayValue, overlay]

theorem overlayValue_of_not_object {v w : Json} (h : v.members? = none ∨ w.members? = none) : overlayValue v w = w := by
  rw [overlayValue.eq_def]
  split
  · rcases h with h | h <;> cases h
  · rfl

theorem overlayKept_cons (m : String × Json) (rs typed : Members) :
    overlayKept (m :: rs) typed = ((kept m.2 (Members.get? typed m.1)).map fun w => (m.1, w)).toList ++ overlayKept rs typed := by
  obtain ⟨k, v⟩ := m
  cases h : Members.get? typed k with
  | some w =>
    rw [overlayKept.eq_2 _ _ _ _ _ h]
    rfl
  | none =>
    cases v with
    | null =>
      rw [overlayKept.eq_3 _ _ _ h]
      rfl
    | _ =>
      rw [overlayKept.eq_4 _ _ _ _ h]
      · rfl
      · exact fun e => nomatch e

theorem keys_overlayKept (rs typed : Members) : (Members.keys (overlayKept rs typed)).Sublist (Members.keys rs) := by
  induction rs with
  | nil => exact .slnil
  | cons m rs ih =>
    rw [overlayKept_cons]
    cases kept m.2 (Members.get? typed m.1) with
    | none => exact ih.cons _
    | some w => exact ih.cons_cons _

section

variable {received typed : Members}

theorem get?_overlayKept (hr : Members.Distinct received) (k : String) :
    Members.get? (overlayKept received typed) k
      = (Members.get? received k).bind fun v => kept v (Members.get? typed k) := by
  induction received with
  | nil => rfl
  | cons m rs ih =>
    obtain ⟨hm, hrs⟩ := Members.distinct_cons.mp hr
    rw [overlayKept_cons, Members.get?_append, Members.get?_cons, ih hrs]
    by_cases hk : m.1 = k
    · subst hk
      have hnone : Members.get? rs m.1 = none := Members.get?_eq_none_iff.mpr hm
      rw [if_pos rfl, hnone]
      cases h : kept m.2 (Members.get? typed m.1) <;> simp [Members.get?_cons, h]
    · rw [if_neg hk]
      cases kept m.2 (Members.get? typed m.1) <;> simp [Members.get?_cons, hk]

theorem get?_appended (ht : Members.Distinct typed) (k : String) :
    Members.get? (appended received typed) k
      = if k ∈ Members.keys received then none else laid none (Members.get? typed k) := by
  rw [appended, ht.get?_filter]
  by_cases hk : k ∈ Members.keys received
  · simp [hk, Members.contains_iff.mpr hk]
  · have hc : Members.contains received k = false := by simpa using mt Members.contains_iff.mp hk
    rw [if_neg hk]
    cases Members.get? typed k with
    | none => rfl
    | some v =>
      cases v with
      | array items => cases items <;> simp [laid, Option.filter, hc]
      | _ => simp [laid, Option.filter, hc]

/-- A lookup in the members that come out. -/
theorem get?_overlay (hr : Members.Distinct received) (ht : Members.Distinct typed) (k : String) :
    Members.get? (overlay received typed) k = laid (Members.get? received k) (Members.get? typed k) := by
  rw [overlay, Members.get?_append, get?_overlayKept hr, get?_appended ht]
  cases h : Members.get? received k with
  | none => simp [Members.get?_eq_none_iff.mp h]
  | some v =>
    have hk : k ∈ Members.keys received := Members.mem_keys_of_mem (Members.mem_of_get? h)
    simp [hk, laid]

theorem distinct_overlay (hr : Members.Distinct received) (ht : Members.Distinct typed) :
    Members.Distinct (overlay received typed) := by
  refine Members.distinct_append.mpr ⟨List.Nodup.sublist (keys_overlayKept _ _) hr, ht.filter _, fun k hk hk' => ?_⟩
  have hreceived : k ∈ Members.keys received := (keys_overlayKept _ _).subset hk
  have hnone : Members.get? (appended received typed) k = none := by rw [get?_appended ht, if_pos hreceived]
  exact Members.get?_eq_none_iff.mp hnone hk'

end

/-! ## Members that stay -/

theorem overlayKept_forall₂ {rs typed : Members} {q : String → Json → Json → Prop}
    (h : ∀ m ∈ rs, ∃ w, kept m.2 (Members.get? typed m.1) = some w ∧ q m.1 m.2 w) :
    List.Forall₂ (fun m n => m.1 = n.1 ∧ q m.1 m.2 n.2) rs (overlayKept rs typed) := by
  induction rs with
  | nil => exact .nil
  | cons m rs ih =>
    obtain ⟨w, hw, hq⟩ := h m List.mem_cons_self
    rw [overlayKept_cons, hw]
    exact .cons ⟨rfl, hq⟩ (ih fun n hn => h n (List.mem_cons_of_mem _ hn))

section

variable {received typed : Members}

theorem appended_eq_nil (ht : Members.Distinct typed)
    (h : ∀ k, Members.get? received k = none → laid none (Members.get? typed k) = none) :
    appended received typed = [] := by
  apply List.eq_nil_iff_forall_not_mem.mpr
  intro m hm
  have hlookup : Members.get? (appended received typed) m.1 = some m.2 := (ht.filter _).get?_of_mem hm
  rw [get?_appended ht] at hlookup
  split at hlookup
  · cases hlookup
  · rename_i hk
    rw [h m.1 (Members.get?_eq_none_iff.mpr hk)] at hlookup
    cases hlookup

/-- Where nothing is dropped and nothing added, the members stay in their places. -/
theorem overlay_forall₂ (hr : Members.Distinct received) (ht : Members.Distinct typed) {q : String → Json → Json → Prop}
    (hkept : ∀ k v, Members.get? received k = some v → ∃ w, kept v (Members.get? typed k) = some w ∧ q k v w)
    (hnew : ∀ k, Members.get? received k = none → laid none (Members.get? typed k) = none) :
    List.Forall₂ (fun m n => m.1 = n.1 ∧ q m.1 m.2 n.2) received (overlay received typed) := by
  rw [overlay, appended_eq_nil ht hnew, List.append_nil]
  exact overlayKept_forall₂ fun m hm => hkept m.1 m.2 (hr.get?_of_mem hm)

theorem eq_of_forall₂_members {as bs : Members} (h : List.Forall₂ (fun m n => m.1 = n.1 ∧ m.2 = n.2) as bs) : as = bs := by
  induction h with
  | nil => rfl
  | cons h _ ih => rw [Prod.ext h.1 h.2, ih]

/-- Laid values that change no member leave the document as it is. -/
theorem overlay_eq_self (hr : Members.Distinct received) (ht : Members.Distinct typed)
    (h : ∀ k, laid (Members.get? received k) (Members.get? typed k) = Members.get? received k) :
    overlay received typed = received := by
  refine (eq_of_forall₂_members (overlay_forall₂ (q := fun _ v w => v = w) hr ht (fun k v hv => ?_) fun k hk => ?_)).symm
  · have hlaid := h k
    rw [hv] at hlaid
    exact ⟨v, hlaid, rfl⟩
  · have hlaid := h k
    rwa [hk] at hlaid

end

/-- A value laid over itself is itself. -/
theorem overlayValue_self (v : Json) : Distinct v → overlayValue v v = v := by
  induction v using induct with
  | object ms ih =>
    intro hv
    obtain ⟨hms, hvalues⟩ := distinct_object.mp hv
    rw [overlayValue_object]
    congr 1
    apply overlay_eq_self hms hms
    intro k
    cases hk : Members.get? ms k with
    | none => rfl
    | some w =>
      have hmem := Members.mem_of_get? hk
      simp only [laid, kept, ih _ hmem (hvalues _ hmem)]
  | _ => exact fun _ => overlayValue_of_not_object (Or.inl rfl)

/-- A member laid over itself stays. -/
theorem laid_self {ms : Members} (h : Distinct (.object ms)) (k : String) :
    laid (Members.get? ms k) (Members.get? ms k) = Members.get? ms k := by
  cases hk : Members.get? ms k with
  | none => rfl
  | some v =>
    have hv : Distinct v := (distinct_object.mp h).2 _ (Members.mem_of_get? hk)
    exact congrArg some (overlayValue_self v hv)

/-! ## What holds of the values that come out -/

theorem mem_overlay {received typed : Members} (hr : Members.Distinct received) (ht : Members.Distinct typed)
    {m : String × Json} (h : m ∈ overlay received typed) :
    laid (Members.get? received m.1) (Members.get? typed m.1) = some m.2 := by
  rw [← get?_overlay hr ht]
  exact (distinct_overlay hr ht).get?_of_mem h

/-- A value that comes out is null, or was laid over, maybe on a received one. -/
theorem laid_cases {v w : Option Json} {x : Json} (h : laid v w = some x) :
    x = .null ∨ w = some x ∨ ∃ a b, v = some a ∧ w = some b ∧ x = overlayValue a b := by
  cases v with
  | none => exact Or.inr (Or.inl (Option.filter_eq_some_iff.mp h).1)
  | some a =>
    cases w with
    | none =>
      simp only [laid, kept] at h
      split at h <;> cases h
      exact Or.inl rfl
    | some b => exact Or.inr (Or.inr ⟨a, b, rfl, rfl, (Option.some.inj h).symm⟩)

/-- Laying one value over another repeats no key. -/
theorem distinct_overlayValue (v : Json) : ∀ w, Distinct v → Distinct w → Distinct (overlayValue v w) := by
  induction v using induct with
  | object outer ih =>
    intro w hv hw
    cases w with
    | object inner =>
      obtain ⟨hr, hreceived⟩ := distinct_object.mp hv
      obtain ⟨ht, htyped⟩ := distinct_object.mp hw
      rw [overlayValue_object]
      refine distinct_object.mpr ⟨distinct_overlay hr ht, fun m hm => ?_⟩
      rcases laid_cases (mem_overlay hr ht hm) with hnull | hlaid | ⟨a, b, ha, hb, hboth⟩
      · rw [hnull]
        exact distinct_null
      · exact htyped _ (Members.mem_of_get? hlaid)
      · rw [hboth]
        exact ih _ (Members.mem_of_get? ha) b (hreceived _ (Members.mem_of_get? ha)) (htyped _ (Members.mem_of_get? hb))
    | _ => rwa [overlayValue_of_not_object (Or.inr rfl)]
  | _ =>
    intro w _ hw
    rwa [overlayValue_of_not_object (Or.inl rfl)]

end PolicySeal
