import PolicySeal.Path
/-
  PolicySeal.Proofs.Path — where a joined path leads.

  A path leads from a place by its steps: its parts without a dot at the start. Joining a relative
  path appends its steps (`steps_join`), and a name that is no dot and no pair of dots, and that has
  no separator in it, is one step down (`steps_child`). An absolute path replaces the one before it.
-/

namespace PolicySeal.Path

/-! ## Pieces -/

theorem pieces_ne_nil (cs : List Char) : pieces cs ≠ [] := by
  cases cs with
  | nil => simp [pieces]
  | cons c cs =>
    rw [pieces]
    split
    · exact List.cons_ne_nil _ _
    · split <;> exact List.cons_ne_nil _ _

/-- A separator ends a piece, wherever it stands. -/
theorem pieces_append (front back : List Char) : pieces (front ++ '/' :: back) = pieces front ++ pieces back := by
  induction front with
  | nil => simp [pieces]
  | cons c front ih =>
    rw [List.cons_append, pieces, pieces]
    by_cases hc : c = '/'
    · rw [if_pos hc, if_pos hc, ih, List.cons_append]
    · rw [if_neg hc, if_neg hc, ih]
      cases hpieces : pieces front with
      | nil => exact absurd hpieces (pieces_ne_nil front)
      | cons piece rest => rfl

theorem pieces_of_no_separator {cs : List Char} (h : '/' ∉ cs) : pieces cs = [cs] := by
  induction cs with
  | nil => rfl
  | cons c cs ih =>
    have hc : ¬ c = '/' := fun hc => h (hc ▸ List.mem_cons_self)
    rw [pieces, if_neg hc, ih fun hcs => h (List.mem_cons_of_mem _ hcs)]

/-! ## Steps -/

/-- The parts that lead somewhere: a dot at the start does not. -/
def steps (p : Path) : List Part := p.parts.filter (· != .here)

/-- What the pieces of a path stand for, but for a separator at the start. -/
def named (p : Path) : List Part := (pieces p.text.toList).filterMap partOf

theorem partOf_ne_here (piece : List Char) : partOf piece ≠ some .here := by
  rw [partOf]
  split
  · exact nofun
  · split <;> exact nofun

theorem filter_partOf (ps : List (List Char)) : (ps.filterMap partOf).filter (· != .here) = ps.filterMap partOf := by
  refine List.filter_eq_self.mpr fun part hpart => ?_
  obtain ⟨piece, -, hpiece⟩ := List.mem_filterMap.mp hpart
  exact bne_iff_ne.mpr fun hhere => partOf_ne_here piece (hhere ▸ hpiece)

/-- An absolute path leads from the root. -/
theorem steps_eq (p : Path) : p.steps = if p.isAbsolute then .root :: p.named else p.named := by
  rw [steps, parts, named, isAbsolute]
  cases htext : p.text.toList with
  | nil => rfl
  | cons c cs =>
    by_cases hc : c = '/'
    · -- The piece before the separator is empty and stands for nothing.
      subst hc
      obtain ⟨piece, rest, hrest⟩ := List.exists_cons_of_ne_nil (pieces_ne_nil cs)
      have hpieces : pieces ('/' :: cs) = [] :: piece :: rest := by rw [pieces, if_pos rfl, hrest]
      rw [hpieces, if_pos (by rfl), List.filterMap_cons_none (by rfl)]
      exact (List.filter_cons_of_pos (by rfl)).trans (congrArg _ (filter_partOf _))
    · have hrelative : ((c :: cs).head? == some '/') = false := by simpa using hc
      obtain ⟨piece, rest, hrest⟩ := List.exists_cons_of_ne_nil (pieces_ne_nil cs)
      have hpieces : pieces (c :: cs) = (c :: piece) :: rest := by rw [pieces, if_neg hc, hrest]
      rw [hpieces, hrelative, if_neg Bool.false_ne_true]
      by_cases hdot : c :: piece = ['.']
      · -- A dot at the start is a part, but stands for nothing among the pieces.
        rw [hdot, List.filterMap_cons_none (by rfl)]
        exact (List.filter_cons_of_neg (by decide)).trans (filter_partOf _)
      · split
        · rename_i heq
          cases heq
        · rename_i heq
          cases heq
        · rename_i heq
          cases heq
        · rename_i heq
          exact absurd (List.cons.inj heq).1 hdot
        · exact filter_partOf _

/-! ## Joined paths -/

theorem join_of_absolute {base rest : Path} (h : rest.isAbsolute = true) : base.join rest = rest := if_pos h

/-- A relative path goes on where the path before it ends. -/
theorem named_join {base rest : Path} (h : rest.isAbsolute = false) :
    (base.join rest).named = base.named ++ rest.named ∧ (base.join rest).isAbsolute = base.isAbsolute := by
  rw [join, if_neg (by rw [h]; exact Bool.false_ne_true)]
  split
  · rename_i hlast
    have hempty : base.text.toList = [] := List.getLast?_eq_none_iff.mp hlast
    simp only [named, isAbsolute] at h ⊢
    exact ⟨by rw [hempty]; rfl, by rw [h, hempty]; rfl⟩
  · rename_i hlast
    obtain ⟨front, hfront⟩ := List.getLast?_eq_some_iff.mp hlast
    simp only [named, isAbsolute, String.toList_append, hfront, List.append_assoc, List.singleton_append, pieces_append,
      List.filterMap_append]
    refine ⟨?_, ?_⟩
    · rw [pieces]
      simp [partOf]
    · cases front <;> rfl
  · rename_i c _ hlast
    obtain ⟨front, hfront⟩ := List.getLast?_eq_some_iff.mp hlast
    have hsep : "/".toList = ['/'] := rfl
    simp only [named, isAbsolute, String.toList_append, hsep, List.append_assoc, List.singleton_append, pieces_append,
      List.filterMap_append]
    refine ⟨trivial, ?_⟩
    rw [hfront]
    cases front <;> rfl

theorem steps_join {base rest : Path} (h : rest.isAbsolute = false) : (base.join rest).steps = base.steps ++ rest.steps := by
  obtain ⟨hnamed, habsolute⟩ :
      (base.join rest).named = base.named ++ rest.named ∧ (base.join rest).isAbsolute = base.isAbsolute := named_join h
  rw [steps_eq, steps_eq base, steps_eq rest, hnamed, habsolute, h, if_neg Bool.false_ne_true]
  split <;> rfl

/-- A name without separators that is no dot and no pair of dots. -/
def Plain (name : String) : Prop :=
  '/' ∉ name.toList ∧ name.toList ≠ [] ∧ name.toList ≠ ['.'] ∧ name.toList ≠ ['.', '.']

instance (name : String) : Decidable (Plain name) := inferInstanceAs (Decidable (_ ∧ _))

section

variable {name : String}

theorem Plain.isAbsolute (h : Plain name) : (⟨name⟩ : Path).isAbsolute = false := by
  rw [Path.isAbsolute]
  cases hname : name.toList with
  | nil => rfl
  | cons c cs =>
    have hc : c ≠ '/' := fun hc => h.1 (by rw [hname, hc]; exact List.mem_cons_self)
    simpa using hc

theorem Plain.steps (h : Plain name) : (⟨name⟩ : Path).steps = [.name name] := by
  obtain ⟨hseparator, hempty, hdot, hdots⟩ := h
  have hpart : partOf name.toList = some (.name name) := by
    rw [partOf, if_neg (not_or.mpr ⟨hempty, hdot⟩), if_neg hdots, String.ofList_toList]
  rw [steps_eq, Plain.isAbsolute ⟨hseparator, hempty, hdot, hdots⟩, if_neg Bool.false_ne_true, named,
    pieces_of_no_separator hseparator, List.filterMap_cons_some hpart, List.filterMap_nil]

/-- A plain name leads one step down, wherever it is joined to. -/
theorem steps_child (base : Path) (h : Plain name) : (base.child name).steps = base.steps ++ [.name name] := by
  rw [child, steps_join h.isAbsolute, h.steps]

end

end PolicySeal.Path
