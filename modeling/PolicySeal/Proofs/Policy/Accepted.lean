import PolicySeal.Proofs.Policy.Fields
/-
  PolicySeal.Proofs.Policy.Accepted — the values that are read as policies, and what is read from
  them.

  Both are told by the members alone, without the readers. What a value must be is `Shaped`, for a
  label and for a policy. What its members hold is one relation for each kind of member that may be
  absent (`HoldsText`, `HoldsItems`, `HoldsBlock`), and for all members of an object
  `HeldIn`: each field is what its member holds, and the members besides are the rest in order.
  A policy is read from a value exactly where it is what the members hold (`ofJson_eq_ok_iff`), and
  there is one exactly where the value has the shape (`accepted_exactly`).
-/

namespace PolicySeal

open Json

/-! ## One member -/

/-- The text of a member that may be absent or null. -/
inductive HoldsText : Option Json → Option String → Prop
  | text (s : String) : HoldsText (some (.string s)) (some s)
  | null : HoldsText (some .null) none
  | absent : HoldsText none none

/-- The items of a member that may be absent, of which `write` makes an array. -/
inductive HoldsItems {α : Type} (write : List α → Json) : Option Json → List α → Prop
  | items (xs : List α) : HoldsItems write (some (write xs)) xs
  | absent : HoldsItems write none []

/-- The signature block of a member that may be absent or null: its fields by name, or the four in order. -/
inductive HoldsBlock : Option Json → Option SignatureBlock → Prop
  | members {ms : Members} {b : SignatureBlock} : b.Reads ms → HoldsBlock (some (.object ms)) (some b)
  | items (b : SignatureBlock) : HoldsBlock (some (strings [b.algorithm, b.value, b.signerId, b.timestamp])) (some b)
  | null : HoldsBlock (some .null) none
  | absent : HoldsBlock none none

section

variable {found : Option Json}

theorem orAbsent_text_iff {x : Option String} :
    Shape.OrAbsent (Shape.optional Shape.string) none found x ↔ HoldsText found x := by
  constructor
  · rintro (⟨rfl, rfl⟩ | ⟨v, rfl, hv⟩)
    · exact .absent
    · rcases Shape.optional_eq_ok_iff.mp hv with ⟨rfl, rfl⟩ | ⟨-, s, hs, rfl⟩
      · exact .null
      · rw [Shape.string_eq_ok_iff.mp hs]
        exact .text s
  · intro h
    cases h with
    | text s => exact Or.inr ⟨_, rfl, rfl⟩
    | null => exact Or.inr ⟨_, rfl, rfl⟩
    | absent => exact Or.inl ⟨rfl, rfl⟩

theorem orAbsent_items_iff {α : Type} {reader : Shape.Reader (List α)} {write : List α → Json}
    (h : ∀ {v : Json} {xs : List α}, reader v = .ok xs ↔ v = write xs) {xs : List α} :
    Shape.OrAbsent reader [] found xs ↔ HoldsItems write found xs := by
  constructor
  · rintro (⟨rfl, rfl⟩ | ⟨v, rfl, hv⟩)
    · exact .absent
    · rw [h.mp hv]
      exact .items xs
  · intro hheld
    cases hheld with
    | items xs => exact Or.inr ⟨_, rfl, h.mpr rfl⟩
    | absent => exact Or.inl ⟨rfl, rfl⟩

theorem orAbsent_strings_iff {ss : List String} :
    Shape.OrAbsent Shape.strings [] found ss ↔ HoldsItems strings found ss := orAbsent_items_iff Shape.strings_eq_ok_iff

theorem orAbsent_list_iff {vs : List Json} : Shape.OrAbsent Shape.list [] found vs ↔ HoldsItems .array found vs :=
  orAbsent_items_iff Shape.list_eq_ok_iff

theorem exists_holdsText_iff :
    (∃ x, HoldsText found x) ↔ found = none ∨ found = some .null ∨ ∃ s, found = some (.string s) := by
  constructor
  · rintro ⟨x, h⟩
    cases h with
    | text s => exact Or.inr (Or.inr ⟨s, rfl⟩)
    | null => exact Or.inr (Or.inl rfl)
    | absent => exact Or.inl rfl
  · rintro (rfl | rfl | ⟨s, rfl⟩)
    · exact ⟨_, .absent⟩
    · exact ⟨_, .null⟩
    · exact ⟨_, .text s⟩

theorem exists_holdsItems_iff {α : Type} {write : List α → Json} :
    (∃ xs, HoldsItems write found xs) ↔ found = none ∨ ∃ xs, found = some (write xs) := by
  constructor
  · rintro ⟨xs, h⟩
    cases h with
    | items xs => exact Or.inr ⟨xs, rfl⟩
    | absent => exact Or.inl rfl
  · rintro (rfl | ⟨xs, rfl⟩)
    · exact ⟨_, .absent⟩
    · exact ⟨_, .items xs⟩

end

/-- The members that are no fields. -/
theorem filter_not_contains (names : List String) (ms : Members) :
    (ms.filter fun m => !names.contains m.1) = ms.filter fun m => m.1 ∉ names :=
  List.filter_congr fun m _ => by simp

theorem forall_mem_pair {P : String → Prop} {a b : String} : (∀ name ∈ [a, b], P name) ↔ P a ∧ P b := by simp

theorem forall_mem_triple {P : String → Prop} {a b c : String} :
    (∀ name ∈ [a, b, c], P name) ↔ P a ∧ P b ∧ P c := by simp

/-! ## Signature blocks -/

namespace SignatureBlock

variable {b : SignatureBlock}

/-- From an array the four fields are read in order, and nothing may be missing or follow. -/
theorem ofItems_eq_ok_iff {items : List Json} :
    ofItems items = .ok b ↔ items = [b.algorithm, b.value, b.signerId, b.timestamp].map .string := by
  constructor
  · intro h
    rw [ofItems] at h
    obtain ⟨ss, hss, h⟩ := Except.bind_eq_ok_iff.mp h
    have htake : items.take 4 = ss.map .string := Shape.mapM_string_eq_ok_iff.mp hss
    split at h
    · split at h
      · rename_i hlength
        cases h
        rwa [List.take_of_length_le (Nat.le_of_eq hlength)] at htake
      · cases h
    · cases h
  · rintro rfl
    rfl

theorem orAbsent_iff {found : Option Json} {x : Option SignatureBlock} (hfound : ∀ v ∈ found, Distinct v) :
    Shape.OrAbsent (Shape.optional ofJson) none found x ↔ HoldsBlock found x := by
  constructor
  · rintro (⟨rfl, rfl⟩ | ⟨v, rfl, hv⟩)
    · exact .absent
    · rcases Shape.optional_eq_ok_iff.mp hv with ⟨rfl, rfl⟩ | ⟨-, b, hb, rfl⟩
      · exact .null
      · cases v with
        | object ms => exact .members ((ofMembers_eq_ok_iff (distinct_object.mp (hfound _ rfl)).1).mp hb)
        | array items =>
          rw [ofItems_eq_ok_iff.mp hb]
          exact .items b
        | _ => cases hb
  · intro h
    cases h with
    | members hreads =>
      have hread : ofJson (.object _) = .ok _ := (ofMembers_eq_ok_iff (distinct_object.mp (hfound _ rfl)).1).mpr hreads
      exact Or.inr ⟨_, rfl, Shape.optional_eq_ok_iff.mpr (Or.inr ⟨nofun, _, hread, rfl⟩)⟩
    | items b => exact Or.inr ⟨_, rfl, rfl⟩
    | null => exact Or.inr ⟨_, rfl, rfl⟩
    | absent => exact Or.inl ⟨rfl, rfl⟩

def fieldNames : List String := ["algorithm", "value", "signerId", "timestamp"]

theorem exists_reads_iff {ms : Members} :
    (∃ b, Reads ms b) ↔ ∀ name ∈ fieldNames, ∃ s, Members.get? ms name = some (.string s) := by
  simp only [fieldNames, List.forall_mem_cons, List.not_mem_nil, false_implies, implies_true, and_true]
  constructor
  · rintro ⟨b, h⟩
    exact ⟨⟨_, h.algorithm⟩, ⟨_, h.value⟩, ⟨_, h.signerId⟩, ⟨_, h.timestamp⟩⟩
  · rintro ⟨⟨a, ha⟩, ⟨v, hv⟩, ⟨i, hi⟩, ⟨t, ht⟩⟩
    exact ⟨⟨a, v, i, t⟩, ha, hv, hi, ht⟩

theorem exists_holdsBlock_iff {found : Option Json} : (∃ x, HoldsBlock found x) ↔
    found = none ∨ found = some .null ∨
      (∃ ms, found = some (.object ms) ∧ ∀ name ∈ fieldNames, ∃ s, Members.get? ms name = some (.string s)) ∨
      ∃ ss : List String, ss.length = 4 ∧ found = some (strings ss) := by
  constructor
  · rintro ⟨x, h⟩
    cases h with
    | members h => exact Or.inr (Or.inr (Or.inl ⟨_, rfl, exists_reads_iff.mp ⟨_, h⟩⟩))
    | items b => exact Or.inr (Or.inr (Or.inr ⟨_, rfl, rfl⟩))
    | null => exact Or.inr (Or.inl rfl)
    | absent => exact Or.inl rfl
  · rintro (rfl | rfl | ⟨ms, rfl, h⟩ | ⟨ss, hlength, rfl⟩)
    · exact ⟨_, .absent⟩
    · exact ⟨_, .null⟩
    · obtain ⟨b, hb⟩ := exists_reads_iff.mpr h
      exact ⟨_, .members hb⟩
    · obtain ⟨a, v, i, t, rfl⟩ := List.length_eq_four.mp hlength
      exact ⟨_, .items ⟨a, v, i, t⟩⟩

end SignatureBlock

/-! ## Labels -/

namespace Label

/-- What the members of a label must be. -/
structure Shaped (ms : Members) : Prop where
  texts : ∀ name ∈ ["classification", "originatingCountry"], ∃ s, Members.get? ms name = some (.string s)
  lists : ∀ name ∈ ["releasabilityTo", "COI", "caveats"],
    Members.get? ms name = none ∨ ∃ ss, Members.get? ms name = some (strings ss)
  optional : ∀ name ∈ ["coiOperator", "creationDate", "displayMarking"],
    Members.get? ms name = none ∨ Members.get? ms name = some .null ∨ ∃ s, Members.get? ms name = some (.string s)

/-- The fields are what the members hold, and the other members are kept. -/
structure HeldIn (ms : Members) (l : Label) : Prop where
  classification : Members.get? ms "classification" = some (.string l.classification)
  releasabilityTo : HoldsItems strings (Members.get? ms "releasabilityTo") l.releasabilityTo
  coi : HoldsItems strings (Members.get? ms "COI") l.coi
  coiOperator : HoldsText (Members.get? ms "coiOperator") l.coiOperator
  caveats : HoldsItems strings (Members.get? ms "caveats") l.caveats
  originatingCountry : Members.get? ms "originatingCountry" = some (.string l.originatingCountry)
  creationDate : HoldsText (Members.get? ms "creationDate") l.creationDate
  displayMarking : HoldsText (Members.get? ms "displayMarking") l.displayMarking
  extensions : l.extensions = ms.filter fun m => m.1 ∉ fieldNames

variable {ms : Members} {l : Label}

theorem reads_iff_heldIn : Reads ms l ↔ HeldIn ms l := by
  have hrest := filter_not_contains fieldNames ms
  constructor
  · intro h
    exact ⟨h.classification, orAbsent_strings_iff.mp h.releasabilityTo, orAbsent_strings_iff.mp h.coi,
      orAbsent_text_iff.mp h.coiOperator, orAbsent_strings_iff.mp h.caveats, h.originatingCountry,
      orAbsent_text_iff.mp h.creationDate, orAbsent_text_iff.mp h.displayMarking, h.extensions.trans hrest⟩
  · intro h
    exact ⟨h.classification, orAbsent_strings_iff.mpr h.releasabilityTo, orAbsent_strings_iff.mpr h.coi,
      orAbsent_text_iff.mpr h.coiOperator, orAbsent_strings_iff.mpr h.caveats, h.originatingCountry,
      orAbsent_text_iff.mpr h.creationDate, orAbsent_text_iff.mpr h.displayMarking, h.extensions.trans hrest.symm⟩

theorem ofJson_eq_ok_iff {v : Json} (hv : Distinct v) : ofJson v = .ok l ↔ ∃ ms, v = .object ms ∧ HeldIn ms l := by
  constructor
  · intro h
    cases v with
    | object ms => exact ⟨ms, rfl, reads_iff_heldIn.mp ((ofMembers_eq_ok_iff (distinct_object.mp hv).1).mp h)⟩
    | _ => cases h
  · rintro ⟨ms, rfl, h⟩
    exact (ofMembers_eq_ok_iff (distinct_object.mp hv).1).mpr (reads_iff_heldIn.mpr h)

theorem exists_heldIn_iff : (∃ l, HeldIn ms l) ↔ Shaped ms := by
  constructor
  · rintro ⟨l, h⟩
    refine ⟨forall_mem_pair.mpr ⟨⟨_, h.classification⟩, ⟨_, h.originatingCountry⟩⟩,
      forall_mem_triple.mpr ⟨?_, ?_, ?_⟩, forall_mem_triple.mpr ⟨?_, ?_, ?_⟩⟩
    · exact exists_holdsItems_iff.mp ⟨_, h.releasabilityTo⟩
    · exact exists_holdsItems_iff.mp ⟨_, h.coi⟩
    · exact exists_holdsItems_iff.mp ⟨_, h.caveats⟩
    · exact exists_holdsText_iff.mp ⟨_, h.coiOperator⟩
    · exact exists_holdsText_iff.mp ⟨_, h.creationDate⟩
    · exact exists_holdsText_iff.mp ⟨_, h.displayMarking⟩
  · rintro ⟨htexts, hlists, hoptional⟩
    obtain ⟨⟨c, hc⟩, ⟨o, ho⟩⟩ := forall_mem_pair.mp htexts
    obtain ⟨hrs, hcs, hvs⟩ := forall_mem_triple.mp hlists
    obtain ⟨hop, hd, hm⟩ := forall_mem_triple.mp hoptional
    obtain ⟨rs, hrs⟩ := exists_holdsItems_iff.mpr hrs
    obtain ⟨cs, hcs⟩ := exists_holdsItems_iff.mpr hcs
    obtain ⟨vs, hvs⟩ := exists_holdsItems_iff.mpr hvs
    obtain ⟨op, hop⟩ := exists_holdsText_iff.mpr hop
    obtain ⟨d, hd⟩ := exists_holdsText_iff.mpr hd
    obtain ⟨m, hm⟩ := exists_holdsText_iff.mpr hm
    exact ⟨⟨c, rs, cs, op, vs, o, d, m, _⟩, hc, hrs, hcs, hop, hvs, ho, hd, hm, rfl⟩

end Label

/-! ## Policies -/

namespace Policy

/-- What the members of a policy must be. -/
structure Shaped (ms : Members) : Prop where
  version : ∃ s, Members.get? ms "policyVersion" = some (.string s)
  label : ∃ lms, Members.get? ms "securityLabel" = some (.object lms) ∧ Label.Shaped lms
  assertions : Members.get? ms "policyAssertions" = none ∨
    ∃ vs, Members.get? ms "policyAssertions" = some (.array vs)
  signature : Members.get? ms signatureField = none ∨ Members.get? ms signatureField = some .null ∨
    (∃ sms, Members.get? ms signatureField = some (.object sms) ∧
      ∀ name ∈ SignatureBlock.fieldNames, ∃ s, Members.get? sms name = some (.string s)) ∨
    ∃ ss : List String, ss.length = 4 ∧ Members.get? ms signatureField = some (strings ss)

/-- The fields are what the members hold, and the other members are kept, besides the document itself. -/
structure HeldIn (ms : Members) (p : Policy) : Prop where
  version : Members.get? ms "policyVersion" = some (.string p.version)
  label : ∃ lms, Members.get? ms "securityLabel" = some (.object lms) ∧ p.label.HeldIn lms
  assertions : HoldsItems .array (Members.get? ms "policyAssertions") p.assertions
  signature : HoldsBlock (Members.get? ms signatureField) p.signature
  extensions : p.extensions = ms.filter fun m => m.1 ∉ fieldNames
  received : p.received = some ms

variable {ms : Members} {p : Policy}

theorem reads_iff_heldIn (hd : Distinct (.object ms)) : Reads ms p ↔ HeldIn ms p := by
  have hvalues : ∀ {k : String}, ∀ v ∈ Members.get? ms k, Distinct v :=
    fun v hv => (distinct_object.mp hd).2 _ (Members.mem_of_get? hv)
  have hrest := filter_not_contains fieldNames ms
  have hlabel : (∃ v, Members.get? ms "securityLabel" = some v ∧ Label.ofJson v = .ok p.label) ↔
      ∃ lms, Members.get? ms "securityLabel" = some (.object lms) ∧ p.label.HeldIn lms := by
    constructor
    · rintro ⟨v, hv, hl⟩
      obtain ⟨lms, rfl, hheld⟩ := (Label.ofJson_eq_ok_iff (hvalues v hv)).mp hl
      exact ⟨lms, hv, hheld⟩
    · rintro ⟨lms, hv, hheld⟩
      exact ⟨_, hv, (Label.ofJson_eq_ok_iff (hvalues _ hv)).mpr ⟨lms, rfl, hheld⟩⟩
  constructor
  · intro h
    exact ⟨h.version, hlabel.mp h.label, orAbsent_list_iff.mp h.assertions,
      (SignatureBlock.orAbsent_iff hvalues).mp h.signature, h.extensions.trans hrest, h.received⟩
  · intro h
    exact ⟨h.version, hlabel.mpr h.label, orAbsent_list_iff.mpr h.assertions,
      (SignatureBlock.orAbsent_iff hvalues).mpr h.signature, h.extensions.trans hrest.symm, h.received⟩

theorem ofJson_eq_ok_iff {v : Json} (hv : Distinct v) : ofJson v = .ok p ↔ ∃ ms, v = .object ms ∧ HeldIn ms p := by
  constructor
  · intro h
    cases v with
    | object ms => exact ⟨ms, rfl, (reads_iff_heldIn hv).mp ((ofMembers_eq_ok_iff (distinct_object.mp hv).1).mp h)⟩
    | _ => cases h
  · rintro ⟨ms, rfl, h⟩
    exact (ofMembers_eq_ok_iff (distinct_object.mp hv).1).mpr ((reads_iff_heldIn hv).mpr h)

theorem exists_heldIn_iff : (∃ p, HeldIn ms p) ↔ Shaped ms := by
  constructor
  · rintro ⟨p, h⟩
    obtain ⟨lms, hlms, hlabel⟩ := h.label
    exact ⟨⟨_, h.version⟩, ⟨lms, hlms, Label.exists_heldIn_iff.mp ⟨_, hlabel⟩⟩,
      exists_holdsItems_iff.mp ⟨_, h.assertions⟩, SignatureBlock.exists_holdsBlock_iff.mp ⟨_, h.signature⟩⟩
  · intro h
    obtain ⟨s, hs⟩ := h.version
    obtain ⟨lms, hlms, hshape⟩ := h.label
    obtain ⟨l, hl⟩ := Label.exists_heldIn_iff.mpr hshape
    obtain ⟨vs, hvs⟩ := exists_holdsItems_iff.mpr h.assertions
    obtain ⟨b, hb⟩ := SignatureBlock.exists_holdsBlock_iff.mpr h.signature
    exact ⟨⟨s, l, vs, b, _, _⟩, hs, ⟨lms, hlms, hl⟩, hvs, hb, rfl, rfl⟩

/-- A value is accepted as a policy exactly where it is an object of the shape, and what is read from it is what its
members hold and nothing else. -/
theorem accepted_exactly {v : Json} (hv : Distinct v) :
    ((∃ p, ofJson v = .ok p) ↔ ∃ ms, v = .object ms ∧ Shaped ms) ∧
      ∀ p, ofJson v = .ok p ↔ ∃ ms, v = .object ms ∧ HeldIn ms p := by
  refine ⟨?_, fun p => ofJson_eq_ok_iff hv⟩
  constructor
  · rintro ⟨p, hp⟩
    obtain ⟨ms, rfl, hheld⟩ := (ofJson_eq_ok_iff hv).mp hp
    exact ⟨ms, rfl, exists_heldIn_iff.mp ⟨p, hheld⟩⟩
  · rintro ⟨ms, rfl, hshape⟩
    obtain ⟨p, hheld⟩ := exists_heldIn_iff.mpr hshape
    exact ⟨p, (ofJson_eq_ok_iff hv).mpr ⟨ms, rfl, hheld⟩⟩

/-- A document with lists left out, nulls, a block in an array, and members besides at the top and in the label. -/
def listedDocument : Members :=
  [("a", .bool true), (signatureField, strings ["sha384", "Zg==", "node", "now"]), ("policyVersion", .string "1.0"),
    ("securityLabel", .object [("b", .null), ("classification", .string "SECRET"), ("coiOperator", .null),
      ("originatingCountry", .string "NLD"), ("caveats", strings ["NOFORN"]), ("c", .array [])]),
    ("d", .string "e")]

theorem distinct_listedDocument : Distinct (.object listedDocument) := by
  simp [listedDocument, distinct_object, Members.Distinct, Members.keys, signatureField, strings]

theorem listedDocument_accepted : ∃ p, ofJson (.object listedDocument) = .ok p ∧
    p.signature = some ⟨"sha384", "Zg==", "node", "now"⟩ ∧ p.label.coiOperator = none ∧ p.label.coi = [] ∧
    p.label.caveats = ["NOFORN"] ∧ p.extensions = [("a", .bool true), ("d", .string "e")] ∧
    p.label.extensions = [("b", .null), ("c", .array [])] := by
  refine ⟨⟨"1.0", ⟨"SECRET", [], [], none, ["NOFORN"], "NLD", none, none, [("b", .null), ("c", .array [])]⟩, [],
    some ⟨"sha384", "Zg==", "node", "now"⟩, [("a", .bool true), ("d", .string "e")], some listedDocument⟩,
    ((accepted_exactly distinct_listedDocument).2 _).mpr ⟨listedDocument, rfl, ?_⟩, rfl, rfl, rfl, rfl, rfl, rfl⟩
  refine ⟨rfl, ⟨_, rfl, ?_⟩, .absent, .items ⟨"sha384", "Zg==", "node", "now"⟩, rfl, rfl⟩
  exact ⟨rfl, .absent, .absent, .null, .items _, rfl, .absent, .absent, rfl⟩

end Policy

end PolicySeal
