import PolicySeal.Json.Value
/-
  PolicySeal.Proofs.Json.Members — the members of an object as a map from keys to values.

  `get?` is the view of a list of members. There is one equation for each operation through
  it (`get?_append`, `get?_filter`, `get?_put`), and lists in which every key stands once are
  the same map exactly when they are permutations of each other (`perm_iff_get?`). What a
  reader builds has every key once (`distinct_ofList`).
-/

namespace PolicySeal.Json.Members

/-! ## Lookups -/

-- Not proved by `rfl`, so that `simp` does not compare keys by evaluation.
@[simp] theorem get?_nil (k : String) : get? [] k = none := by rw [get?]

theorem get?_cons (m : String × Json) (ms : Members) (k : String) :
    get? (m :: ms) k = if m.1 = k then some m.2 else get? ms k := by rw [get?]

@[simp] theorem keys_nil : keys [] = [] := rfl
@[simp] theorem keys_cons (m : String × Json) (ms : Members) : keys (m :: ms) = m.1 :: keys ms := rfl
@[simp] theorem keys_append (as bs : Members) : keys (as ++ bs) = keys as ++ keys bs := List.map_append

theorem get?_append (as bs : Members) (k : String) : get? (as ++ bs) k = (get? as k).or (get? bs k) := by
  induction as with
  | nil => rfl
  | cons m as ih =>
    simp only [List.cons_append, get?_cons, ih]
    split <;> rfl

theorem get?_eq_none_iff {ms : Members} {k : String} : get? ms k = none ↔ k ∉ keys ms := by
  induction ms with
  | nil => simp
  | cons m ms ih =>
    rw [get?_cons]
    split
    · rename_i h
      simp [h]
    · rename_i h
      simp [ih, Ne.symm h]

theorem contains_iff {ms : Members} {k : String} : contains ms k = true ↔ k ∈ keys ms := by
  simp [contains, keys]

theorem mem_of_get? {ms : Members} {k : String} {v : Json} (h : get? ms k = some v) : (k, v) ∈ ms := by
  induction ms with
  | nil => cases h
  | cons m ms ih =>
    rw [get?_cons] at h
    split at h
    · rename_i hk
      cases h
      subst hk
      exact List.mem_cons_self
    · exact List.mem_cons_of_mem _ (ih h)

theorem mem_keys_of_mem {ms : Members} {m : String × Json} (h : m ∈ ms) : m.1 ∈ keys ms := List.mem_map_of_mem h

/-- A filter that looks at keys only. -/
theorem get?_filter (p : String → Bool) (ms : Members) (k : String) :
    get? (ms.filter fun m => p m.1) k = if p k then get? ms k else none := by
  induction ms with
  | nil => simp
  | cons m ms ih =>
    rw [get?_cons]
    cases hm : p m.1 with
    | true =>
      rw [List.filter_cons, if_pos hm, get?_cons, ih]
      split
      · rename_i hk
        rw [← hk, if_pos hm]
      · rfl
    | false =>
      rw [List.filter_cons, if_neg (by simp [hm]), ih]
      by_cases hk : m.1 = k
      · simp [← hk, hm]
      · rw [if_neg hk]

/-! ## Every key once -/

instance (ms : Members) : Decidable (Distinct ms) := inferInstanceAs (Decidable (List.Nodup _))

theorem distinct_nil : Distinct [] := List.nodup_nil

theorem distinct_cons {m : String × Json} {ms : Members} : Distinct (m :: ms) ↔ m.1 ∉ keys ms ∧ Distinct ms :=
  List.nodup_cons

theorem distinct_append {as bs : Members} :
    Distinct (as ++ bs) ↔ Distinct as ∧ Distinct bs ∧ ∀ k ∈ keys as, k ∉ keys bs := by
  rw [Distinct, keys_append, List.nodup_append]
  constructor
  · intro hab
    obtain ⟨ha, hb, hne⟩ := hab
    exact ⟨ha, hb, fun k hk hk' => hne k hk k hk' rfl⟩
  · intro hab
    obtain ⟨ha, hb, hne⟩ := hab
    exact ⟨ha, hb, fun k hk j hj e => hne k hk (e ▸ hj)⟩

theorem keys_sublist {as bs : Members} (h : as.Sublist bs) : (keys as).Sublist (keys bs) := h.map _

theorem Distinct.sublist {as bs : Members} (h : Distinct bs) (hs : as.Sublist bs) : Distinct as :=
  List.Nodup.sublist (keys_sublist hs) h

theorem Distinct.filter {ms : Members} (h : Distinct ms) (p : String × Json → Bool) : Distinct (ms.filter p) :=
  h.sublist List.filter_sublist

theorem Distinct.get?_of_mem {ms : Members} (h : Distinct ms) {m : String × Json} (hm : m ∈ ms) :
    get? ms m.1 = some m.2 := by
  induction ms with
  | nil => cases hm
  | cons x ms ih =>
    obtain ⟨hx, hms⟩ := distinct_cons.mp h
    rw [get?_cons]
    rcases List.mem_cons.mp hm with rfl | hm
    · rw [if_pos rfl]
    · have hne : x.1 ≠ m.1 := fun e => hx (e ▸ mem_keys_of_mem hm)
      rw [if_neg hne]
      exact ih hms hm

theorem Distinct.get?_eq_some_iff {ms : Members} (h : Distinct ms) {k : String} {v : Json} :
    get? ms k = some v ↔ (k, v) ∈ ms :=
  ⟨mem_of_get?, fun hm => h.get?_of_mem hm⟩

theorem Distinct.get?_filter {ms : Members} (h : Distinct ms) (p : String × Json → Bool) (k : String) :
    get? (ms.filter p) k = (get? ms k).filter fun v => p (k, v) := by
  apply Option.ext
  intro v
  rw [(h.filter p).get?_eq_some_iff, List.mem_filter, ← h.get?_eq_some_iff, Option.filter_eq_some_iff]

/-- Members are determined as a map by their keys and values, whatever their order. -/
theorem perm_iff_get? {as bs : Members} (ha : Distinct as) (hb : Distinct bs) :
    as.Perm bs ↔ ∀ k, get? as k = get? bs k := by
  have hmem : ∀ {ms : Members}, Distinct ms → ms.Nodup := fun h => List.Pairwise.of_map _ (fun _ _ hne e => hne (e ▸ rfl)) h
  constructor
  · intro hp k
    apply Option.ext
    intro v
    rw [ha.get?_eq_some_iff, hb.get?_eq_some_iff, hp.mem_iff]
  · intro hk
    apply (List.perm_ext_iff_of_nodup (hmem ha) (hmem hb)).mpr
    intro m
    rw [← ha.get?_eq_some_iff (k := m.1) (v := m.2), hk, hb.get?_eq_some_iff]

/-! ## Setting members -/

theorem put_of_not_mem {ms : Members} {k : String} (v : Json) (h : k ∉ keys ms) : put ms k v = ms ++ [(k, v)] := by
  induction ms with
  | nil => rfl
  | cons m ms ih =>
    simp only [keys_cons, List.mem_cons, not_or] at h
    rw [put, if_neg (Ne.symm h.1), ih h.2]
    rfl

theorem keys_put_of_mem {ms : Members} {k : String} (v : Json) (h : k ∈ keys ms) : keys (put ms k v) = keys ms := by
  induction ms with
  | nil => cases h
  | cons m ms ih =>
    rw [put]
    split
    · rfl
    · rename_i hne
      rcases List.mem_cons.mp h with rfl | h
      · exact absurd rfl hne
      · simp [ih h]

theorem get?_put (ms : Members) (k : String) (v : Json) (j : String) :
    get? (put ms k v) j = if k = j then some v else get? ms j := by
  induction ms with
  | nil => rfl
  | cons m ms ih =>
    rw [put]
    split
    · rename_i hk
      simp only [get?_cons, hk]
      split <;> rfl
    · rename_i hk
      simp only [get?_cons, ih]
      split
      · rename_i hj
        rw [if_neg fun e => hk (hj.trans e.symm)]
      · rfl

theorem Distinct.put {ms : Members} (h : Distinct ms) (k : String) (v : Json) : Distinct (put ms k v) := by
  by_cases hk : k ∈ keys ms
  · rw [Distinct, keys_put_of_mem v hk]
    exact h
  · rw [put_of_not_mem v hk]
    refine distinct_append.mpr ⟨h, distinct_cons.mpr ⟨List.not_mem_nil, distinct_nil⟩, fun j hj hj' => ?_⟩
    obtain rfl : j = k := List.mem_singleton.mp hj'
    exact hk hj

theorem Distinct.erase {ms : Members} (h : Distinct ms) (k : String) : Distinct (erase ms k) := h.filter _

theorem mem_put {ms : Members} {k : String} {v : Json} {m : String × Json} (h : m ∈ put ms k v) :
    m = (k, v) ∨ m ∈ ms := by
  induction ms with
  | nil => exact Or.inl (List.mem_singleton.mp h)
  | cons x ms ih =>
    rw [put] at h
    split at h
    · rename_i hk
      rw [← hk]
      rcases List.mem_cons.mp h with rfl | h
      · exact Or.inl (by rw [hk])
      · exact Or.inr (List.mem_cons_of_mem _ h)
    · rcases List.mem_cons.mp h with rfl | h
      · exact Or.inr List.mem_cons_self
      · exact (ih h).imp_right (List.mem_cons_of_mem _)

theorem mem_foldl_put {ms added : Members} {m : String × Json}
    (h : m ∈ added.foldl (fun acc m => put acc m.1 m.2) ms) : m ∈ ms ∨ m ∈ added := by
  induction added generalizing ms with
  | nil => exact Or.inl h
  | cons x added ih =>
    rcases ih h with h | h
    · rcases mem_put h with rfl | h
      · exact Or.inr List.mem_cons_self
      · exact Or.inl h
    · exact Or.inr (List.mem_cons_of_mem _ h)

/-- Setting members whose keys are new adds them at the end, in order. -/
theorem foldl_put_eq_append {ms added : Members} (h : Distinct (ms ++ added)) :
    added.foldl (fun acc m => put acc m.1 m.2) ms = ms ++ added := by
  induction added generalizing ms with
  | nil => simp
  | cons m added ih =>
    have hm : m.1 ∉ keys ms := fun hm => (distinct_append.mp h).2.2 _ hm List.mem_cons_self
    rw [List.foldl_cons, put_of_not_mem m.2 hm, ih (by simpa using h)]
    simp

theorem Distinct.foldl_put {ms : Members} (h : Distinct ms) (added : Members) :
    Distinct (added.foldl (fun acc m => Members.put acc m.1 m.2) ms) := by
  induction added generalizing ms with
  | nil => exact h
  | cons m added ih => exact ih (h.put m.1 m.2)

theorem get?_foldl_put {ms added : Members} (h : Distinct added) (k : String) :
    get? (added.foldl (fun acc m => put acc m.1 m.2) ms) k
      = (get? added k).or (get? ms k) := by
  induction added generalizing ms with
  | nil => rfl
  | cons m added ih =>
    obtain ⟨hm, hadded⟩ := distinct_cons.mp h
    rw [List.foldl_cons, ih hadded, get?_put, get?_cons]
    by_cases hk : m.1 = k
    · subst hk
      rw [get?_eq_none_iff.mpr hm]
      simp
    · rw [if_neg hk, if_neg hk]

/-- A reader keeps every key once. -/
theorem distinct_ofList (ms : List (String × Json)) : Distinct (ofList ms) := distinct_nil.foldl_put ms

theorem Distinct.ofList_eq {ms : Members} (h : Distinct ms) : ofList ms = ms := by
  rw [← List.nil_append ms] at h
  exact foldl_put_eq_append h

end PolicySeal.Json.Members
