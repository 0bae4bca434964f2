import PolicySeal.Proofs.Json.Paths
import PolicySeal.Proofs.Policy.Transport
/-
  PolicySeal.Proofs.Policy.Extensions — what becomes of an edited member that is no field.

  A value laid over a received one is told path by path (`found?_laid`): it comes out as it
  is, but for nulls that were received in objects it has too and that it does not mention
  (`StaysNull`), and empty arrays in received objects that had no such member (`LeftOut`).
  A policy keeps such members at the top and in its label (`Place`). Setting one writes the
  value there in that sense, removing it takes it out of the document unless it was received
  as null (`removed_null_stays`), and the signed bytes tell (`extension_edit_written`).
-/

namespace PolicySeal

open Json

/-! ## Laid values at every depth -/

/-- A received null, in an object that what is laid over it has too, but without that member. -/
def StaysNull (path : List String) (received value : Option Json) : Prop :=
  along? path received value = some (some .null, none)

/-- An empty array, laid over a received object that has no such member. -/
def LeftOut (path : List String) (received value : Option Json) : Prop :=
  along? path received value = some (none, some (.array []))

/-- Neither of the two. -/
def Plain (path : List String) (received value : Option Json) : Prop :=
  ¬ StaysNull path received value ∧ ¬ LeftOut path received value

theorem head_overlayValue (v w : Json) : head (overlayValue v w) = head w := by
  cases hv : v.members? with
  | none => rw [overlayValue_of_not_object (Or.inl hv)]
  | some ms =>
    cases v <;> cases hv
    cases w with
    | object ns => rw [overlayValue_object]; rfl
    | _ => rw [overlayValue_of_not_object (Or.inr rfl)]

theorem map_head_laid {v w : Option Json} (h : Plain [] v w) : (laid v w).map head = w.map head := by
  obtain ⟨hnull, hempty⟩ := h
  cases v with
  | none =>
    cases w with
    | none => rfl
    | some w => rw [laid_none_some fun e => hempty (by rw [e]; rfl)]
  | some v =>
    cases w with
    | some w => exact congrArg some (head_overlayValue v w)
    | none =>
      cases v with
      | null => exact absurd rfl hnull
      | _ => rfl

/-- Where one of the two is no object, the members that come out are those of the laid value. -/
theorem member?_laid_of_not_object {v w : Option Json} (h : v.bind members? = none ∨ w.bind members? = none) (k : String) :
    member? (laid v w) k = member? w k := by
  cases v with
  | none =>
    cases w with
    | none => rfl
    | some w =>
      by_cases hw : w = .array []
      · rw [hw]; rfl
      · rw [laid_none_some hw]
  | some v =>
    cases w with
    | some w => rw [laid, kept, overlayValue_of_not_object h]
    | none => cases v <;> rfl

theorem member?_laid_object {ms ns : Members} (hm : Members.Distinct ms) (hn : Members.Distinct ns) (k : String) :
    member? (laid (some (.object ms)) (some (.object ns))) k = laid (Members.get? ms k) (Members.get? ns k) := by
  rw [laid, kept, overlayValue_object, member?_object, get?_overlay hm hn]

/-- What stands at a path of a value that was laid over a received one. -/
theorem found?_laid (path : List String) : ∀ {received value : Option Json}, (∀ v ∈ received, Distinct v) →
    (∀ v ∈ value, Distinct v) →
    (StaysNull path received value → found? path (laid received value) = some .null) ∧
      (Plain path received value → found? path (laid received value) = found? path value) := by
  induction path with
  | nil =>
    intro received value _ _
    refine ⟨fun h => ?_, map_head_laid⟩
    obtain ⟨rfl, rfl⟩ := Prod.mk.inj (Option.some.inj h)
    rfl
  | cons k path ih =>
    intro received value hr hv
    simp only [found?_cons]
    by_cases hobject : received.bind members? = none ∨ value.bind members? = none
    · rw [StaysNull, along?_cons_of_not_object hobject, member?_laid_of_not_object hobject]
      exact ⟨nofun, fun _ => rfl⟩
    · -- Both are objects, and the path goes on in their members.
      obtain ⟨hro, hvo⟩ := not_or.mp hobject
      obtain ⟨ms, hms⟩ := Option.ne_none_iff_exists'.mp hro
      obtain ⟨ns, hns⟩ := Option.ne_none_iff_exists'.mp hvo
      obtain ⟨v, rfl, hms⟩ := Option.bind_eq_some_iff.mp hms
      obtain ⟨w, rfl, hns⟩ := Option.bind_eq_some_iff.mp hns
      cases v <;> cases hms
      cases w <;> cases hns
      obtain ⟨hdm, hvalues⟩ := distinct_object.mp (hr _ rfl)
      obtain ⟨hdn, hvalues'⟩ := distinct_object.mp (hv _ rfl)
      rw [member?_laid_object hdm hdn]
      exact ih (fun v hv => hvalues _ (Members.mem_of_get? hv)) fun v hv => hvalues' _ (Members.mem_of_get? hv)

/-- What is written where `value` was laid over what was received: nulls that are not mentioned stay, nothing is said
of empty arrays in objects that had no such member, and all else is as in `value`. -/
structure WrittenOver (received value written : Option Json) : Prop where
  null : ∀ path, StaysNull path received value → found? path written = some .null
  plain : ∀ path, Plain path received value → found? path written = found? path value
  same : (∀ path, Plain path received value) → Option.Rel (fun u v => u.same v = true) written value

theorem distinct_laid {v w : Option Json} (hv : ∀ x ∈ v, Distinct x) (hw : ∀ x ∈ w, Distinct x) :
    ∀ x ∈ laid v w, Distinct x := by
  intro x hx
  rcases laid_cases hx with rfl | hlaid | ⟨a, b, ha, hb, rfl⟩
  · exact distinct_null
  · exact hw x hlaid
  · exact distinct_overlayValue a b (hv a ha) (hw b hb)

theorem writtenOver_laid {received value : Option Json} (hr : ∀ v ∈ received, Distinct v) (hv : ∀ v ∈ value, Distinct v) :
    WrittenOver received value (laid received value) := by
  refine ⟨fun path => (found?_laid path hr hv).1, fun path => (found?_laid path hr hv).2, fun hplain => ?_⟩
  have hfound := fun path => (found?_laid path hr hv).2 (hplain path)
  have hdistinct := distinct_laid hr hv
  revert hfound hdistinct
  generalize laid received value = written
  intro hfound hdistinct
  cases written with
  | none =>
    cases value with
    | none => exact .none
    | some v => cases hfound []
  | some u =>
    cases value with
    | none => cases hfound []
    | some v => exact .some (same_of_found?_eq u v (hdistinct u rfl) (hv v rfl) hfound)

/-! ## Places -/

namespace Policy

/-- Where a policy keeps members that are no fields. -/
inductive Place where
  | policy
  | label

namespace Place

/-- The names that are fields there. -/
def names : Place → List String
  | policy => fieldNames
  | label => Label.fieldNames

def path : Place → List String
  | policy => []
  | label => ["securityLabel"]

/-- The member of a key, in a document. -/
def in? (place : Place) (k : String) (document : Json) : Option Json := at? (place.path ++ [k]) (some document)

def held : Place → Policy → Members
  | policy, p => p.extensions
  | label, p => p.label.extensions

/-- Sets a member, or removes it. -/
def edit : Place → String → Option Json → Edit
  | policy => .extension
  | label => .labelExtension

end Place

variable {p : Policy} {ms : Members} {k : String} {value : Option Json}

theorem received_apply (e : Edit) (p : Policy) : (e.apply p).received = p.received := by
  cases e with
  | signature block => cases block <;> rfl
  | _ => rfl

/-- What a policy received was read, before all edits. -/
theorem Made.reads_received (hp : Made p) (hr : p.received = some ms) : ∃ p₀, Reads ms p₀ := by
  induction hp with
  | @read v p hv h =>
    cases v with
    | object ns =>
      have hreads := (ofMembers_eq_ok_iff (distinct_object.mp hv).1).mp h
      rw [hreads.received] at hr
      cases hr
      exact ⟨p, hreads⟩
    | _ => cases h
  | new => cases hr
  | edit e _ _ ih => exact ih (received_apply e _ ▸ hr)

theorem Made.received_label (hp : Made p) (hr : p.received = some ms) :
    ∃ lms, Members.get? ms "securityLabel" = some (.object lms) := by
  obtain ⟨p₀, hreads⟩ := hp.reads_received hr
  obtain ⟨v, hv, hl⟩ := hreads.label
  cases v with
  | object lms => exact ⟨lms, hv⟩
  | _ => cases hl

namespace Place

/-- The value of the field with that name. -/
def value? : Place → Policy → String → Option Json
  | policy, p => p.value?
  | label, p => p.label.value?

/-- What there is to be written: the member kept under the name, or else the field. -/
def toWrite (place : Place) (p : Policy) (k : String) : Option Json :=
  (Members.get? (place.held p) k).or (place.value? p k)

/-- The place is in the document: a label is not, where another member is kept under its name. -/
def Shown : Place → Policy → Prop
  | policy, _ => True
  | label, p => Members.get? p.extensions "securityLabel" = none

theorem value?_of_not_mem {place : Place} (hk : k ∉ place.names) : place.value? p k = none := by
  cases place with
  | policy => exact Policy.value?_of_not_mem hk
  | label => exact Label.value?_of_not_mem hk

theorem toWrite_of_not_mem {place : Place} (hk : k ∉ place.names) :
    place.toWrite p k = Members.get? (place.held p) k := by rw [toWrite, value?_of_not_mem hk, Option.or_none]

theorem shown_of_apart (place : Place) (hapart : ExtensionsApart p) : place.Shown p := by
  cases place with
  | policy => trivial
  | label => exact Members.get?_eq_none_iff.mpr fun hmem => hapart.1 _ hmem (by decide)

/-- What there is to be written is laid over what was received, where anything was. -/
theorem in?_eq (place : Place) (hp : Made p) (hshown : place.Shown p) (k : String) :
    place.in? k p.document =
      match p.received with
      | some ms => laid (place.in? k (.object ms)) (place.toWrite p k)
      | none => place.toWrite p k := by
  have hkeys := hp.keysOnce
  cases place with
  | policy =>
    simp only [in?, path, document, List.nil_append, at?_cons, at?_nil, member?_object]
    rw [hkeys.get?_members, get?_view (distinct_object.mp hkeys.extensions).1]
    rfl
  | label =>
    have hview : Members.get? p.view "securityLabel" = some (.object p.label.view) := by
      rw [get?_view (distinct_object.mp hkeys.extensions).1, hshown, Option.none_or]
      rfl
    have hwrite : Members.get? p.label.view k = Place.label.toWrite p k :=
      Label.get?_view (distinct_object.mp hkeys.labelExtensions).1 k
    simp only [in?, path, document, List.cons_append, List.nil_append, at?_cons, at?_nil, member?_object]
    rw [hkeys.get?_members, hview]
    cases hr : p.received with
    | none => exact hwrite
    | some ms =>
      obtain ⟨lms, hlms⟩ := hp.received_label hr
      have hdistinct : Distinct (.object lms) := distinct_get?_of_object (hkeys.received ms hr) hlms
      simp only [hlms]
      rw [member?_laid_object (distinct_object.mp hdistinct).1 (Label.distinct_view _), hwrite, member?_object]

/-- A member that is no field is laid over the received one. -/
theorem in?_document (place : Place) (hp : Made p) (hapart : ExtensionsApart p) (hr : p.received = some ms)
    (hk : k ∉ place.names) :
    place.in? k p.document = laid (place.in? k (.object ms)) (Members.get? (place.held p) k) := by
  rw [place.in?_eq hp (place.shown_of_apart hapart), hr, toWrite_of_not_mem hk]

end Place

theorem Place.distinct_in? (place : Place) {v : Json} (hv : Distinct v) : ∀ w ∈ place.in? k v, Distinct w := by
  have hmember : ∀ {u : Option Json} {j : String}, (∀ w ∈ u, Distinct w) → ∀ w ∈ member? u j, Distinct w := by
    intro u j hu w hw
    obtain ⟨ns, hns, hget⟩ := Option.bind_eq_some_iff.mp hw
    obtain ⟨x, hx, hmembers⟩ := Option.bind_eq_some_iff.mp hns
    cases x <;> cases hmembers
    exact distinct_get?_of_object (hu _ hx) hget
  have hself : ∀ w ∈ some v, Distinct w := by
    rintro _ ⟨⟩
    exact hv
  cases place with
  | policy => exact hmember hself
  | label => exact hmember (hmember hself)

theorem Place.distinct_held (place : Place) (hp : KeysOnce p) : ∀ v ∈ Members.get? (place.held p) k, Distinct v := by
  cases place with
  | policy => exact fun v hv => distinct_get?_of_object hp.extensions hv
  | label => exact fun v hv => distinct_get?_of_object hp.labelExtensions hv

/-! ## Edits -/

theorem get?_setMember (ms : Members) (k : String) (value : Option Json) :
    Members.get? (Edit.setMember ms k value) k = value := by
  cases value with
  | some v => rw [Edit.setMember, Members.get?_put, if_pos rfl]
  | none =>
    rw [Edit.setMember, Members.erase, Members.get?_filter fun j => j != k]
    simp

theorem mem_keys_setMember {ms : Members} {j : String} (h : j ∈ Members.keys (Edit.setMember ms k value)) :
    j = k ∨ j ∈ Members.keys ms := by
  obtain ⟨m, hm, rfl⟩ := List.mem_map.mp h
  cases value with
  | some v =>
    rcases Members.mem_put hm with rfl | hm
    · exact Or.inl rfl
    · exact Or.inr (Members.mem_keys_of_mem hm)
  | none => exact Or.inr (Members.mem_keys_of_mem (List.mem_filter.mp hm).1)

namespace Place

variable (place : Place)

theorem keysOnce_edit (hv : ∀ v ∈ value, Distinct v) : (place.edit k value).KeysOnce := by
  cases place <;> exact hv

theorem held_edit (k : String) (value : Option Json) (p : Policy) :
    Members.get? (place.held ((place.edit k value).apply p)) k = value := by
  cases place <;> exact get?_setMember _ k value

theorem extensionsApart_edit (hapart : ExtensionsApart p) (hk : k ∉ place.names) (value : Option Json) :
    ExtensionsApart ((place.edit k value).apply p) := by
  have hset : ∀ {ms : Members} {names : List String}, (∀ j ∈ Members.keys ms, j ∉ names) → k ∉ names →
      ∀ j ∈ Members.keys (Edit.setMember ms k value), j ∉ names := by
    intro ms names h hk j hj
    rcases mem_keys_setMember hj with rfl | hj
    · exact hk
    · exact h j hj
  cases place with
  | policy => exact ⟨hset hapart.1 hk, hapart.2⟩
  | label => exact ⟨hapart.1, hset hapart.2 hk⟩

/-- Policies with the same signed bytes have the same members that are no fields. -/
theorem in?_eq_of_signedBytes {q : Policy} (hp : KeysOnce p) (hq : KeysOnce q) (hk : k ∉ place.names)
    (h : p.signedBytes = q.signedBytes) : place.in? k p.document = place.in? k q.document := by
  have hmember := (hp.signedBytes_eq_iff hq).mp h
  cases place with
  | policy => exact hmember k fun e => hk (e ▸ by decide)
  | label => exact congrArg (member? · k) (hmember "securityLabel" (by decide))

end Place

/-- After a member that is no field was set or removed, the document holds the value there at every depth, but for
nulls that were received and that the value does not mention, and for empty arrays that were not received. Where the
member held and the new value differ at a path that neither is about, the signed bytes change. -/
theorem extension_edit_written (place : Place) (hp : Made p) (hapart : ExtensionsApart p) (hr : p.received = some ms)
    (hk : k ∉ place.names) (hv : ∀ v ∈ value, Distinct v) :
    WrittenOver (place.in? k (.object ms)) value (place.in? k ((place.edit k value).apply p).document) ∧
      ∀ path, Plain path (place.in? k (.object ms)) (Members.get? (place.held p) k) →
        Plain path (place.in? k (.object ms)) value →
        found? path (Members.get? (place.held p) k) ≠ found? path value →
        ((place.edit k value).apply p).signedBytes ≠ p.signedBytes := by
  have hq : Made ((place.edit k value).apply p) := .edit _ (place.keysOnce_edit hv) hp
  have hreceived := place.distinct_in? (k := k) (hp.keysOnce.received ms hr)
  have hheld := place.distinct_held (k := k) hp.keysOnce
  have hbefore := place.in?_document hp hapart hr hk
  have hafter := place.in?_document hq (place.extensionsApart_edit hapart hk value) ((received_apply _ p).trans hr) hk
  rw [place.held_edit] at hafter
  have hwritten := writtenOver_laid hreceived hv
  refine ⟨hafter ▸ hwritten, fun path hold hnew hdiffer hbytes => hdiffer ?_⟩
  have hsame := place.in?_eq_of_signedBytes hq.keysOnce hp.keysOnce hk hbytes
  rw [← hwritten.plain path hnew, ← hafter, hsame, hbefore]
  exact ((writtenOver_laid hreceived hheld).plain path hold).symm

/-- Another value for a member of the label: one of its members is changed, one is left out. -/
def newLevel : Json := .object [("b", .bool false)]

theorem newLevel_written :
    found? ["b"] (Place.label.in? "level" ((Place.label.edit "level" (some newLevel)).apply unorderedPolicy).document)
        = some (.bool false) ∧
      found? ["a"] (Place.label.in? "level" ((Place.label.edit "level" (some newLevel)).apply unorderedPolicy).document)
        = none ∧
      ((Place.label.edit "level" (some newLevel)).apply unorderedPolicy).signedBytes ≠ unorderedPolicy.signedBytes := by
  have hmade : Made unorderedPolicy := .read distinct_unorderedDocument rfl
  have hapart : ExtensionsApart unorderedPolicy := by
    constructor <;> decide
  have hnew : ∀ v ∈ some newLevel, Distinct v := by
    simp [newLevel, distinct_object, Members.Distinct, Members.keys]
  have hreceived : unorderedPolicy.received = some unorderedDocument := rfl
  obtain ⟨hwritten, hbytes⟩ := extension_edit_written .label hmade hapart hreceived (k := "level") (by decide) hnew
  have hold : Plain ["b"] (Place.label.in? "level" (.object unorderedDocument))
      (Members.get? (Place.label.held unorderedPolicy) "level") := by
    constructor <;> intro h <;> cases h
  have hb : Plain ["b"] (Place.label.in? "level" (.object unorderedDocument)) (some newLevel) := by
    constructor <;> intro h <;> cases h
  have ha : Plain ["a"] (Place.label.in? "level" (.object unorderedDocument)) (some newLevel) := by
    constructor <;> intro h <;> cases h
  exact ⟨hwritten.plain _ hb, hwritten.plain _ ha, hbytes _ hold hb fun h => by cases h⟩

/-- Null that was received stays when the member is removed, and the signed bytes are as before. -/
theorem removed_null_stays :
    ofJson (.object unorderedDocument) = .ok unorderedPolicy ∧
      Members.get? ((Edit.extension "note" none).apply unorderedPolicy).extensions "note" = none ∧
      Members.get? ((Edit.extension "note" none).apply unorderedPolicy).members "note" = some .null ∧
      ((Edit.extension "note" none).apply unorderedPolicy).signedBytes = unorderedPolicy.signedBytes := by
  refine ⟨rfl, rfl, rfl, ?_⟩
  rw [signedBytes, signedBytes, canonical, canonical]
  rfl

end Policy

end PolicySeal
