import PolicySeal.Proofs.Json.RoundTrip
import PolicySeal.Proofs.Json.Shape
import PolicySeal.Proofs.Time.Written
/-
  PolicySeal.Proofs.Json.Record — records are read from the members they are written with.

  What a reader makes of a written value is told value by value (`Draft.Reads`): of texts, times,
  lists and the names of variants. A record is read from an object if each member is a field that is
  read (`Draft.Known`) and no key stands twice; its slots are then the members (`Draft.record_known`),
  and a field that was left out gives what stands for it (`Slots.orElse_optional`). A text, compact
  or pretty, is read as the value is (`Draft.Reads.readText`).
-/

namespace PolicySeal.Json

theorem rereadItems_eq (items : List Json) : rereadItems items = items.map reread := by
  induction items with
  | nil => rfl
  | cons v items ih => rw [rereadItems, ih, List.map_cons]

theorem rereadMembers_eq (ms : Members) : rereadMembers ms = ms.map fun m => (some m.1, reread m.2) := by
  induction ms with
  | nil => rfl
  | cons m ms ih => rw [rereadMembers, ih, List.map_cons]

namespace Draft

variable {α : Type} {reader : Reader α} {v : Json} {a : α}

/-! ## Values -/

/-- The reader finds this in what is read of a written value. -/
def Reads (reader : Reader α) (v : Json) (a : α) : Prop := reader (reread v) = .ok a

theorem reads_string (s : String) : Reads string (.string s) s := rfl

theorem reads_bool (b : Bool) : Reads bool (.bool b) b := rfl

theorem reads_time {r : Time.Reading} (h : r.Valid) : Reads time (.string r.text) r := by
  simp only [Reads, reread, time, Time.Reading.ofText?_text h]

/-- A variant is found by its name, if the names are distinct. -/
theorem reads_variant {all : List α} {name : α → String} (hdistinct : (all.map name).Nodup) (h : a ∈ all) :
    Reads (variant (all.map fun a => (name a, a))) (.string (name a)) a := by
  have hlookup : (all.map fun a => (name a, a)).lookup (name a) = some a := by
    induction all with
    | nil => cases h
    | cons b all ih =>
      obtain ⟨hnew, hdistinct⟩ := List.nodup_cons.mp hdistinct
      rcases List.mem_cons.mp h with rfl | h
      · simp
      · have hne : (name a == name b) = false := by
          rw [beq_eq_false_iff_ne]
          exact fun heq => hnew (heq ▸ List.mem_map_of_mem h)
        rw [List.map_cons, List.lookup_cons, hne]
        exact ih hdistinct h
  simp only [Reads, reread, variant, named, hlookup]

theorem reads_list {toJson : α → Json} {as : List α} (h : ∀ a ∈ as, Reads reader (toJson a) a) :
    Reads (list reader) (.array (as.map toJson)) as := by
  rw [Reads, reread, rereadItems_eq, List.map_map, list]
  induction as with
  | nil => rfl
  | cons a as ih =>
    obtain ⟨ha, has⟩ := List.forall_mem_cons.mp h
    have hreader : reader ((reread ∘ toJson) a) = .ok a := ha
    rw [List.map_cons, List.mapM_cons, hreader, ih has]
    rfl

/-- A value that is not null is not absent. -/
theorem Reads.optional (h : Reads reader v a) (hv : v ≠ .null) : Reads (optional reader) v (some a) := by
  have hread : reader (reread v) = .ok a := h
  have hsome : Draft.optional reader (reread v) = (reader (reread v)).map some := by
    cases v with
    | null => exact absurd rfl hv
    | number n =>
      rw [reread]
      split <;> rfl
    | _ => rfl
  rw [Reads, hsome, hread]
  rfl

/-! ## Records -/

/-- The member is one of the fields, and what is read of it passes. -/
def Known (fields : List Field) (m : String × Json) : Prop :=
  ∃ f, fields.find? (·.name == m.1) = some f ∧ f.check (reread m.2) = .ok ()

theorem Reads.known {fields : List Field} {name : String} {hasDefault : Bool} (h : Reads reader v a)
    (hfind : fields.find? (·.name == name) = some (.of name reader hasDefault)) : Known fields (name, v) := by
  have hread : reader (reread v) = .ok a := h
  exact ⟨_, hfind, by simp only [Field.of, hread]; rfl⟩

/-- The members with what is read of their values. -/
def drafts (ms : Members) : Slots := ms.map fun m => (m.1, reread m.2)

theorem lookup_drafts (ms : Members) (name : String) : (drafts ms).lookup name = (Members.get? ms name).map reread := by
  induction ms with
  | nil => rfl
  | cons m ms ih =>
    obtain ⟨key, v⟩ := m
    rw [Members.get?_cons, drafts, List.map_cons, List.lookup_cons]
    by_cases hkey : key = name
    · simp [hkey]
    · rw [if_neg hkey, beq_eq_false_iff_ne.mpr (Ne.symm hkey)]
      exact ih

variable {fields : List Field} {ms : Members}

/-- Known members under new keys are taken one after the other. -/
theorem ofMembers_known {seen : Slots} (hdistinct : Members.Distinct ms) (hnew : ∀ m ∈ ms, seen.lookup m.1 = none)
    (hknown : ∀ m ∈ ms, Known fields m) : ofMembers fields seen (rereadMembers ms) = .ok (seen ++ drafts ms) := by
  rw [rereadMembers_eq]
  induction ms generalizing seen with
  | nil => exact congrArg Except.ok (List.append_nil _).symm
  | cons m ms ih =>
    obtain ⟨hkey, hrest⟩ := Members.distinct_cons.mp hdistinct
    obtain ⟨hm, hms⟩ := List.forall_mem_cons.mp hnew
    obtain ⟨⟨f, hfind, hcheck⟩, hknown⟩ := List.forall_mem_cons.mp hknown
    have hlater : ∀ n ∈ ms, (seen ++ [(m.1, reread m.2)]).lookup n.1 = none := by
      intro n hn
      have hne : n.1 ≠ m.1 := fun heq => hkey (heq ▸ Members.mem_keys_of_mem hn)
      rw [List.lookup_append, hms n hn, Option.none_or, List.lookup_cons, beq_eq_false_iff_ne.mpr hne]
      rfl
    have hstep := ih hrest hlater hknown
    simp only [List.map_cons, ofMembers, hfind, hm, Option.isSome_none, Bool.false_eq_true, if_false, hcheck]
    rw [show drafts (m :: ms) = [(m.1, reread m.2)] ++ drafts ms from rfl, ← List.append_assoc]
    exact hstep

/-- The slots of a record are the members that it was written with. -/
theorem record_known {name : String} (hdistinct : Members.Distinct ms) (hknown : ∀ m ∈ ms, Known fields m) :
    record name fields (reread (.object ms)) = .ok (drafts ms) := by
  rw [reread, record, ofMembers_known hdistinct (fun _ _ => rfl) hknown, List.nil_append]

namespace Slots

variable {name : String}

theorem required_of_reads (h : Members.get? ms name = some v) (hread : Reads reader v a) :
    (drafts ms).required name reader = .ok a := by
  rw [required, lookup_drafts, h, Option.map_some]
  exact hread

theorem orElse_of_reads {absent : α} (h : Members.get? ms name = some v) (hread : Reads reader v a) :
    (drafts ms).orElse name reader absent = .ok a := by
  rw [orElse, lookup_drafts, h, Option.map_some]
  exact hread

theorem orElse_of_missing {absent : α} (h : Members.get? ms name = none) :
    (drafts ms).orElse name reader absent = .ok absent := by
  rw [orElse, lookup_drafts, h, Option.map_none]

/-- What is written only where it is there is found again, and where it is not, that is found. -/
theorem orElse_optional {toJson : α → Json} {x : Option α} (h : Members.get? ms name = x.map toJson)
    (hread : ∀ a ∈ x, Reads reader (toJson a) a) (hvalue : ∀ a, toJson a ≠ .null) :
    (drafts ms).orElse name (optional reader) none = .ok x := by
  cases x with
  | none => exact orElse_of_missing h
  | some a => exact orElse_of_reads h ((hread a rfl).optional (hvalue a))

end Slots

/-! ## Whole texts -/

theorem Reads.readText (h : Reads reader v a) :
    Draft.readText reader (compact v) = .ok a ∧ Draft.readText reader (pretty v) = .ok a := by
  have hread : ∀ {cs : List Char}, Token.Spelled (tokens v) cs → Draft.readText reader (String.ofList cs) = .ok a := by
    intro cs hcs
    rw [readText_eq_ok_iff, String.toList_ofList, Token.ofText_of_spelled hcs, ofTokens_tokens]
    exact ⟨h, rfl⟩
  exact ⟨hread (spelled_compact v), hread (spelled_pretty v)⟩

end Draft

end PolicySeal.Json
