import PolicySeal.Proofs.Der.Primitive
import PolicySeal.X509.NameText
/-
  PolicySeal.Proofs.X509.Name — names are read as they were written.

  A name comes back from its encoding when the types of its attributes do, and is not read at all
  when they do not (`Name.readable_of_ofElement?`). The values of a name that was read from text
  are always such as can be read, and so are the types that have names (`readable_of_mem_known`).
  The attributes of a part are in the order of their encodings already, so sorting them once more
  changes nothing (`Rdn.ofList?_attributes`).
-/

namespace PolicySeal.X509

open Der

theorem mem_of_mapM_eq_some {α β : Type} {f : α → Option β} {l : List α} {l' : List β} {b : β}
    (h : l.mapM f = some l') (hb : b ∈ l') : ∃ a ∈ l, f a = some b := by
  induction l generalizing l' with
  | nil =>
    cases h
    cases hb
  | cons a l ih =>
    rw [List.mapM_cons] at h
    obtain ⟨b', hb', h⟩ := Option.bind_eq_some_iff.mp h
    obtain ⟨rest, hrest, h⟩ := Option.bind_eq_some_iff.mp h
    cases h
    rcases List.mem_cons.mp hb with rfl | hb
    · exact ⟨a, List.mem_cons_self, hb'⟩
    · obtain ⟨a', ha', hf⟩ := ih hrest hb
      exact ⟨a', List.mem_cons_of_mem _ ha', hf⟩

/-- What every member is read as, all of them are. -/
theorem mapM_map_eq_some {α β : Type} {f : α → β} {g : β → Option α} {l : List α} (h : ∀ a ∈ l, g (f a) = some a) :
    (l.map f).mapM g = some l := by
  induction l with
  | nil => rfl
  | cons a l ih =>
    obtain ⟨ha, hl⟩ := List.forall_mem_cons.mp h
    rw [List.map_cons, List.mapM_cons, ha, ih hl]
    rfl

theorem isSome_of_mapM_map {α β : Type} {f : α → β} {g : β → Option α} {l l' : List α} (h : (l.map f).mapM g = some l') :
    ∀ a ∈ l, ∃ b, g (f a) = some b := by
  induction l generalizing l' with
  | nil => exact fun a ha => nomatch ha
  | cons a l ih =>
    rw [List.map_cons, List.mapM_cons] at h
    obtain ⟨b, hb, h⟩ := Option.bind_eq_some_iff.mp h
    obtain ⟨rest, hrest, -⟩ := Option.bind_eq_some_iff.mp h
    exact List.forall_mem_cons.mpr ⟨⟨b, hb⟩, ih hrest⟩

/-! ## Attributes -/

/-- The type is read from its encoding, and the value is of a known one. -/
structure Attribute.Readable (a : Attribute) : Prop where
  type : a.type.Readable
  value : Tag.isKnown a.value.tag = true

theorem Attribute.inside?_toElement {a : Attribute} (hvalue : Tag.isKnown a.value.tag = true)
    (hlength : a.toElement.content.length ≤ maxLength) :
    a.toElement.inside? Tag.sequence = some [a.type.toElement, a.value] :=
  inside?_wrap hlength (by simp [Oid.toElement, hvalue])

theorem Attribute.ofElement?_toElement {a : Attribute} (h : a.Readable) (hlength : a.toElement.content.length ≤ maxLength) :
    ofElement? a.toElement = some a := by
  rw [ofElement?, inside?_toElement h.value hlength, Option.bind_eq_bind, Option.bind_some]
  simp only [Oid.ofElement?_toElement h.type]
  rfl

/-- If the attribute is read at all, its type is. -/
theorem Attribute.readable_of_ofElement? {a b : Attribute} (hvalue : Tag.isKnown a.value.tag = true)
    (hlength : a.toElement.content.length ≤ maxLength) (h : ofElement? a.toElement = some b) : a.Readable := by
  rw [ofElement?, inside?_toElement hvalue hlength, Option.bind_eq_bind, Option.bind_some] at h
  obtain ⟨type, htype, -⟩ := Option.bind_eq_some_iff.mp h
  exact ⟨Oid.readable_of_ofElement? htype, hvalue⟩

/-! ## Parts -/

def Rdn.Readable (r : Rdn) : Prop := ∀ a ∈ r.attributes, a.Readable

/-- Attributes that are in order stay as they are. -/
theorem Rdn.ofList?_attributes (r : Rdn) : ofList? r.attributes = some r := by
  have hsorted : r.attributes.mergeSort (fun a b => decide (a.encode ≤ b.encode)) = r.attributes := by
    refine List.mergeSort_of_pairwise (r.sorted.imp fun h => ?_)
    exact decide_eq_true (List.le_of_lt h)
  simp only [ofList?, hsorted, dif_pos r.sorted]

section

variable {r : Rdn} (hlength : r.toElement.content.length ≤ maxLength)

include hlength

theorem Rdn.inside?_toElement : r.toElement.inside? Tag.set = some (r.attributes.map Attribute.toElement) := by
  refine inside?_wrap hlength fun e he => ?_
  obtain ⟨a, -, rfl⟩ := List.mem_map.mp he
  rfl

theorem Rdn.length_attribute {a : Attribute} (ha : a ∈ r.attributes) : a.toElement.content.length ≤ maxLength :=
  length_le_of_mem (List.mem_map_of_mem ha) hlength

theorem Rdn.ofElement?_toElement (h : r.Readable) : ofElement? r.toElement = some r := by
  have hattributes : (r.attributes.map Attribute.toElement).mapM Attribute.ofElement? = some r.attributes :=
    mapM_map_eq_some fun a ha => Attribute.ofElement?_toElement (h a ha) (length_attribute hlength ha)
  rw [ofElement?, inside?_toElement hlength, Option.bind_eq_bind, Option.bind_some, hattributes]
  exact ofList?_attributes r

theorem Rdn.readable_of_ofElement? {q : Rdn} (hvalues : ∀ a ∈ r.attributes, Tag.isKnown a.value.tag = true)
    (h : ofElement? r.toElement = some q) : r.Readable := by
  rw [ofElement?, inside?_toElement hlength, Option.bind_eq_bind, Option.bind_some] at h
  obtain ⟨as, has, -⟩ := Option.bind_eq_some_iff.mp h
  intro a ha
  obtain ⟨b, hb⟩ := isSome_of_mapM_map has a ha
  exact Attribute.readable_of_ofElement? (hvalues a ha) (length_attribute hlength ha) hb

end

/-! ## Names -/

def Name.Readable (n : Name) : Prop := ∀ r ∈ n.parts, r.Readable

/-- The values of the attributes are of known types. -/
def Name.HasKnownValues (n : Name) : Prop := ∀ r ∈ n.parts, ∀ a ∈ r.attributes, Tag.isKnown a.value.tag = true

section

variable {n : Name} (hlength : n.toElement.content.length ≤ maxLength)

include hlength

theorem Name.inside?_toElement : n.toElement.inside? Tag.sequence = some (n.parts.map Rdn.toElement) := by
  refine inside?_wrap hlength fun e he => ?_
  obtain ⟨r, -, rfl⟩ := List.mem_map.mp he
  rfl

theorem Name.length_part {r : Rdn} (hr : r ∈ n.parts) : r.toElement.content.length ≤ maxLength :=
  length_le_of_mem (List.mem_map_of_mem hr) hlength

theorem Name.ofElement?_toElement (h : n.Readable) : ofElement? n.toElement = some n := by
  have hparts : (n.parts.map Rdn.toElement).mapM Rdn.ofElement? = some n.parts :=
    mapM_map_eq_some fun r hr => Rdn.ofElement?_toElement (length_part hlength hr) (h r hr)
  rw [ofElement?, inside?_toElement hlength, Option.bind_eq_bind, Option.bind_some, hparts]
  rfl

/-- If a name is read at all, the types of its attributes are. -/
theorem Name.readable_of_ofElement? {m : Name} (hvalues : n.HasKnownValues) (h : ofElement? n.toElement = some m) :
    n.Readable := by
  rw [ofElement?, inside?_toElement hlength, Option.bind_eq_bind, Option.bind_some] at h
  obtain ⟨parts, hparts, -⟩ := Option.bind_eq_some_iff.mp h
  intro r hr
  obtain ⟨q, hq⟩ := isSome_of_mapM_map hparts r hr
  exact Rdn.readable_of_ofElement? (length_part hlength hr) (hvalues r hr) hq

end

/-! ## Names from text -/

/-- The types of all attributes of a name. -/
def Name.types (n : Name) : List Oid := n.parts.flatMap fun r => r.attributes.map Attribute.type

theorem readable_of_mem_known : ∀ t ∈ AttributeType.known, t.oid.Readable := by decide

theorem isKnown_valueTag (type : Oid) : Tag.isKnown (valueTag type) = true := by
  rw [valueTag]
  repeat' split
  all_goals rfl

/-- A value is of a known type, as digits and as text. -/
theorem isKnown_of_value? {type : Oid} {cs : List Char} {v : Element} (h : value? type cs = some v) :
    Tag.isKnown v.tag = true := by
  rw [value?.eq_def] at h
  split at h
  · obtain ⟨bs, -, hone⟩ := Option.bind_eq_some_iff.mp h
    exact Element.isKnown_of_one? hone
  · obtain ⟨bs, -, rfl⟩ := Option.map_eq_some_iff.mp h
    exact isKnown_valueTag type

theorem isKnown_of_ofChars? {cs : List Char} {a : Attribute} (h : Attribute.ofChars? cs = some a) :
    Tag.isKnown a.value.tag = true := by
  rw [Attribute.ofChars?] at h
  split at h
  · obtain ⟨type, -, h⟩ := Option.bind_eq_some_iff.mp h
    obtain ⟨value, hvalue, h⟩ := Option.bind_eq_some_iff.mp h
    cases h
    exact isKnown_of_value? hvalue
  · cases h

theorem Rdn.mem_of_ofList? {as : List Attribute} {r : Rdn} {a : Attribute} (h : ofList? as = some r) :
    a ∈ r.attributes ↔ a ∈ as := by
  simp only [ofList?] at h
  split at h
  · cases h
    exact List.mem_mergeSort
  · cases h

/-- The values of a name from text are of known types. -/
theorem Name.hasKnownValues_of_ofText? {text : String} {n : Name} (h : ofText? text = some n) : n.HasKnownValues := by
  intro r hr a ha
  obtain ⟨parts, hparts, h⟩ := Option.bind_eq_some_iff.mp h
  cases h
  obtain ⟨cs, -, hrdn⟩ := mem_of_mapM_eq_some hparts (List.mem_reverse.mp hr)
  obtain ⟨attributes, hattributes, hlist⟩ := Option.bind_eq_some_iff.mp hrdn
  obtain ⟨cs, -, hchars⟩ := mem_of_mapM_eq_some hattributes ((Rdn.mem_of_ofList? hlist).mp ha)
  exact isKnown_of_ofChars? hchars

/-- A name with such values is read from its encoding if the types of its attributes are. -/
theorem Name.readable_iff {n : Name} (hvalues : n.HasKnownValues) : n.Readable ↔ ∀ o ∈ n.types, o.Readable := by
  constructor
  · intro h o ho
    obtain ⟨r, hr, ho⟩ := List.mem_flatMap.mp ho
    obtain ⟨a, ha, rfl⟩ := List.mem_map.mp ho
    exact (h r hr a ha).type
  · intro h r hr a ha
    exact ⟨h _ (List.mem_flatMap.mpr ⟨r, hr, List.mem_map_of_mem ha⟩), hvalues r hr a ha⟩

end PolicySeal.X509
