import PolicySeal.Proofs.Policy.Agreement
import PolicySeal.Proofs.Policy.Extensions
import PolicySeal.Proofs.Policy.Signed
/-
  PolicySeal.Proofs.Policy.Frame — what an edit leaves as it was in the document.

  An edit is about one member, at the top or in the label (`Edit.place`, `Edit.member`). The
  documents before and after have the same other members, with the same values and in the same
  order (`SameBut`): at the top they are written from fields and other members that are the same
  apart from the edited one (`erase_members_of`), and an edit of the label leaves every member of
  the document in its place (`alongside_members`), as the label itself is written from the same
  but the edited one (`sameApart_label_view`). In every document of a policy, what was received
  stands in the order it was received in, and the rest behind it (`Made.inReceivedPlaces`). Both
  together are `edit_frame`.
-/

namespace PolicySeal

open Json

/-! ## What an edit is about -/

namespace Edit

/-- Where the edited member stands. -/
def place : Edit → Policy.Place
  | classification _ | originatingCountry _ | coiOperator _ | creationDate _ | displayMarking _ | releasabilityTo _
  | coi _ | caveats _ | labelExtension _ _ => .label
  | version _ | assertions _ | extension _ _ | signature _ | signatureField _ _ => .policy

/-- The name of the edited member. -/
def member : Edit → String
  | version _ => "policyVersion"
  | classification _ => "classification"
  | originatingCountry _ => "originatingCountry"
  | coiOperator _ => "coiOperator"
  | creationDate _ => "creationDate"
  | displayMarking _ => "displayMarking"
  | releasabilityTo _ => "releasabilityTo"
  | coi _ => "COI"
  | caveats _ => "caveats"
  | assertions _ => "policyAssertions"
  | extension key _ => key
  | labelExtension key _ => key
  | signature _ => PolicySeal.signatureField
  | signatureField _ _ => PolicySeal.signatureField

end Edit

/-! ## Documents that are the same but for one member -/

/-- The same members with the same values in the same order, but for the member of the key. -/
def SameApart (key : String) (ms ns : Members) : Prop := Members.erase ms key = Members.erase ns key

/-- The same value, or the value of the label and in it all the same but the member of the key. -/
def ValueApart (key name : String) (v w : Json) : Prop :=
  v = w ∨ name = "securityLabel" ∧ ∃ ms ns, v = .object ms ∧ w = .object ns ∧ SameApart key ms ns

/-- The same members side by side, but for the member of the key in the label. -/
def Alongside (key : String) (ms ns : Members) : Prop :=
  List.Forall₂ (fun m n => m.1 = n.1 ∧ ValueApart key m.1 m.2 n.2) ms ns

/-- Documents that are the same, member by member and in order, but for the member of the key in that place. -/
def SameBut : Policy.Place → String → Members → Members → Prop
  | .policy => SameApart
  | .label => Alongside

/-! ## Members side by side -/

section

variable {key : String} {ms ns : Members}

theorem alongside_refl (key : String) (ms : Members) : Alongside key ms ms :=
  List.forall₂_same.mpr fun _ _ => ⟨rfl, Or.inl rfl⟩

theorem Alongside.append {ms' ns' : Members} (h : Alongside key ms ns) (h' : Alongside key ms' ns') :
    Alongside key (ms ++ ms') (ns ++ ns') := List.rel_append h h'

theorem Alongside.put (h : Alongside key ms ns) (k : String) (v : Json) :
    Alongside key (Members.put ms k v) (Members.put ns k v) := by
  induction h with
  | nil => exact .cons ⟨rfl, Or.inl rfl⟩ .nil
  | @cons m n ms ns hm hrest ih =>
    rw [Members.put, Members.put, ← hm.1]
    split
    · exact .cons ⟨rfl, Or.inl rfl⟩ hrest
    · exact .cons ⟨rfl, hm.2⟩ ih

theorem Alongside.foldl_put (h : Alongside key ms ns) (added : Members) :
    Alongside key (added.foldl (fun acc m => Members.put acc m.1 m.2) ms)
      (added.foldl (fun acc m => Members.put acc m.1 m.2) ns) := by
  induction added generalizing ms ns with
  | nil => exact h
  | cons m added ih => exact ih (h.put m.1 m.2)

theorem Alongside.get? (h : Alongside key ms ns) (k : String) :
    Option.Rel (ValueApart key k) (Members.get? ms k) (Members.get? ns k) := by
  induction h with
  | nil => exact .none
  | @cons m n ms ns hm _ ih =>
    rw [Members.get?_cons, Members.get?_cons, ← hm.1]
    split
    · rename_i hk
      exact .some (hk ▸ hm.2)
    · exact ih

/-- Values that are the same apart from the key stay so when they are laid over a received one. -/
theorem ValueApart.overlayValue {name : String} {v w : Json} (received : Json) (h : ValueApart key name v w) :
    ValueApart key name (overlayValue received v) (overlayValue received w) := by
  rcases h with rfl | ⟨hname, ms, ns, rfl, rfl, hapart⟩
  · exact Or.inl rfl
  · refine Or.inr ⟨hname, ?_⟩
    cases received with
    | object rs =>
      rw [overlayValue_object, overlayValue_object]
      exact ⟨_, _, rfl, rfl, erase_overlay hapart rs⟩
    | _ =>
      rw [overlayValue_of_not_object (Or.inl rfl), overlayValue_of_not_object (Or.inl rfl)]
      exact ⟨ms, ns, rfl, rfl, hapart⟩

theorem Alongside.overlayKept (h : Alongside key ms ns) (received : Members) :
    Alongside key (overlayKept received ms) (overlayKept received ns) := by
  induction received with
  | nil => exact .nil
  | cons m received ih =>
    rw [overlayKept_cons, overlayKept_cons]
    refine Alongside.append ?_ ih
    have hlookup := h.get? m.1
    cases hms : Members.get? ms m.1 <;> cases hns : Members.get? ns m.1 <;> rw [hms, hns] at hlookup <;> cases hlookup
    · exact alongside_refl key _
    · rename_i hvalue
      exact .cons ⟨rfl, hvalue.overlayValue m.2⟩ .nil

theorem Alongside.appended (h : Alongside key ms ns) (received : Members) :
    Alongside key (appended received ms) (appended received ns) := by
  refine List.rel_filter (fun m n hm => ?_) h
  obtain ⟨hkey, hvalue | ⟨-, _, _, hm, hn, -⟩⟩ := hm
  · rw [Prod.ext hkey hvalue]
  · -- Both are objects, and none is left out as an empty array.
    simp only [hkey, hm, hn]

theorem Alongside.overlay (h : Alongside key ms ns) (received : Members) :
    Alongside key (overlay received ms) (overlay received ns) :=
  (h.overlayKept received).append (h.appended received)

end

/-! ## Labels -/

theorem erase_optionalMember (name : String) (value : Option String) :
    Members.erase (optionalMember name value) name = [] := by
  cases value <;> simp [optionalMember, Members.erase]

theorem erase_setMember (ms : Members) (key : String) (value : Option Json) :
    Members.erase (Edit.setMember ms key value) key = Members.erase ms key := by
  cases value with
  | some v => rw [Edit.setMember, Members.erase_put, if_pos rfl]
  | none => rw [Edit.setMember, Members.erase, Members.erase, List.filter_filter]; simp only [Bool.and_self]

/-- The label is written from the same members, but for the edited one. -/
theorem sameApart_label_view {e : Edit} (h : e.place = .label) (l : Label) :
    SameApart e.member l.view (e.onLabel l).view := by
  have hwritten : Members.erase l.known e.member = Members.erase (e.onLabel l).known e.member ∧
      Members.erase l.extensions e.member = Members.erase (e.onLabel l).extensions e.member := by
    cases e with
    | labelExtension key value => exact ⟨rfl, (erase_setMember l.extensions key value).symm⟩
    | coiOperator value | creationDate value | displayMarking value =>
      refine ⟨?_, rfl⟩
      simp only [Label.known, Edit.onLabel, Edit.member, Members.erase_append, erase_optionalMember]
    | classification value | originatingCountry value | releasabilityTo values | coi values | caveats values =>
      refine ⟨?_, rfl⟩
      simp only [Label.known, Edit.onLabel, Edit.member, Members.erase_append, Members.erase_cons, if_true]
    | _ => cases h
  rw [SameApart, Label.view, Label.view, Members.erase_foldl_put, Members.erase_foldl_put, hwritten.1, hwritten.2]

/-! ## Policies -/

namespace Policy

variable {p : Policy}

theorem alongside_members {q : Policy} {key : String} (h : Alongside key p.view q.view)
    (hreceived : p.received = q.received) : Alongside key p.members q.members := by
  rw [members, members, hreceived]
  cases q.received with
  | none => exact h
  | some received => exact h.overlay received

/-- Policies that differ in their labels are written from the same members side by side. -/
theorem alongside_view {key : String} {l : Label} (h : SameApart key p.label.view l.view) :
    Alongside key p.view { p with label := l }.view := by
  have hlabel : ValueApart key "securityLabel" (.object p.label.view) (.object l.view) := Or.inr ⟨rfl, _, _, rfl, rfl, h⟩
  have hknown : Alongside key p.known { p with label := l }.known :=
    .append (.cons ⟨rfl, Or.inl rfl⟩ (.cons ⟨rfl, hlabel⟩ (.cons ⟨rfl, Or.inl rfl⟩ .nil))) (alongside_refl key _)
  exact hknown.foldl_put p.extensions

theorem apply_of_label {e : Edit} (h : e.place = .label) (p : Policy) :
    e.apply p = { p with label := e.onLabel p.label } := by
  cases e <;> first | rfl | cases h

/-- The documents before and after an edit are the same but for the edited member. -/
theorem sameBut_apply (e : Edit) (p : Policy) : SameBut e.place e.member p.members (e.apply p).members := by
  have hreceived : p.received = (e.apply p).received := (received_apply e p).symm
  cases hplace : e.place with
  | label =>
    refine alongside_members ?_ hreceived
    rw [apply_of_label hplace]
    exact alongside_view (sameApart_label_view hplace p.label)
  | policy =>
    refine erase_members_of ?_ ?_ hreceived
    · cases e with
      | version value | assertions items =>
        simp only [known, Edit.apply, Edit.member, Members.erase_append, Members.erase_cons, if_true]
      | signature block =>
        have hunsigned : p.withoutSignature.known = ((Edit.signature block).apply p).withoutSignature.known := by
          cases block <;> rfl
        exact (erase_known p).trans (hunsigned ▸ (erase_known ((Edit.signature block).apply p)).symm)
      | signatureField field value =>
        exact (erase_known p).trans (erase_known ((Edit.signatureField field value).apply p)).symm
      | extension key value => rfl
      | _ => cases hplace
    · cases e with
      | extension key value => exact (erase_setMember p.extensions key value).symm
      | signature block => cases block <;> rfl
      | _ => rfl

/-! ## Received places -/

/-- The members that were received are in the order they were received in, and the others behind them. -/
def Arranged (received ms : Members) : Prop :=
  ∃ kept new, ms = kept ++ new ∧ (Members.keys kept).Sublist (Members.keys received) ∧
    ∀ k ∈ Members.keys new, k ∉ Members.keys received

theorem arranged_overlay (received typed : Members) : Arranged received (overlay received typed) := by
  refine ⟨overlayKept received typed, appended received typed, rfl, keys_overlayKept received typed,
    fun k hk hreceived => ?_⟩
  obtain ⟨m, hm, rfl⟩ := List.mem_map.mp hk
  have hnew := (List.mem_filter.mp hm).2
  simp [Members.contains_iff.mpr hreceived] at hnew

/-- The members of a document are arranged as they were received, and so are those of its label. -/
structure InReceivedPlaces (received ms : Members) : Prop where
  top : Arranged received ms
  label : ∀ {receivedLabel label : Members}, Members.get? received "securityLabel" = some (.object receivedLabel) →
    Members.get? ms "securityLabel" = some (.object label) → Arranged receivedLabel label

/-- So is every document of a policy, after any edits. -/
theorem Made.inReceivedPlaces (hp : Made p) {received : Members} (hr : p.received = some received) :
    InReceivedPlaces received p.members := by
  constructor
  · rw [members, hr]
    exact arranged_overlay received p.view
  · intro receivedLabel label hreceived hlabel
    rw [hp.keysOnce.get?_members, hr] at hlabel
    simp only [hreceived, laid] at hlabel
    cases hview : Members.get? p.view "securityLabel" with
    | none =>
      rw [hview] at hlabel
      cases hlabel
    | some v =>
      rw [hview, kept, Option.some.injEq] at hlabel
      cases v with
      | object typed =>
        rw [overlayValue_object, Json.object.injEq] at hlabel
        rw [← hlabel]
        exact arranged_overlay receivedLabel typed
      | _ =>
        rw [overlayValue_of_not_object (Or.inr rfl)] at hlabel
        cases hlabel

/-! ## Edits -/

/-- An edit moves and changes nothing but the member it is about: the documents before and after have, at the top and in
the label, the same other members with the same values in the same order. In both the received members stand in the
order they were received in, and the others behind them. -/
theorem edit_frame (hp : Made p) {e : Edit} (he : e.KeysOnce) :
    SameBut e.place e.member p.members (e.apply p).members ∧
    (e.OfFields → e.place = .policy →
      Members.get? p.members "securityLabel" = Members.get? (e.apply p).members "securityLabel") ∧
    ∀ received, p.received = some received →
      InReceivedPlaces received p.members ∧ InReceivedPlaces received (e.apply p).members := by
  have hsame := sameBut_apply e p
  refine ⟨hsame, fun hfield hplace => ?_, fun received hr => ⟨hp.inReceivedPlaces hr, ?_⟩⟩
  · have hmember : "securityLabel" ≠ e.member := by
      cases e with
      | extension key value => exact hfield.elim
      | version value | assertions items | signature block | signatureField field value => exact ne_of_beq_false rfl
      | _ => cases hplace
    rw [hplace] at hsame
    calc Members.get? p.members "securityLabel"
        = Members.get? (Members.erase p.members e.member) "securityLabel" := (Members.get?_erase hmember).symm
      _ = Members.get? (Members.erase (e.apply p).members e.member) "securityLabel" := by rw [hsame]
      _ = Members.get? (e.apply p).members "securityLabel" := Members.get?_erase hmember
  · exact (Made.edit e he hp).inReceivedPlaces ((received_apply e p).trans hr)

/-- The policy of an edited document, with a marking that was not received. -/
def markedPolicy : Policy := (Edit.displayMarking (some "SECRET")).apply revisedPolicy

theorem markedPolicy_frame :
    Alongside "displayMarking" revisedPolicy.members markedPolicy.members ∧
      InReceivedPlaces unorderedDocument markedPolicy.members ∧
      Members.get? markedPolicy.members "securityLabel" = some (.object
        [("originatingCountry", .string "NLD"), ("caveats", .array [.string "NOFORN"]), ("creationDate", .string "2025"),
          ("level", .object [("b", .bool true), ("a", .array [])]), ("classification", .string "SECRET"),
          ("displayMarking", .string "SECRET")]) := by
  have hread : Made unorderedPolicy := .read distinct_unorderedDocument rfl
  have hmade : Made revisedPolicy := hread.edits (by simp [Edit.KeysOnce])
  obtain ⟨hsame, -, hplaces⟩ := edit_frame hmade (e := .displayMarking (some "SECRET")) trivial
  exact ⟨hsame, (hplaces unorderedDocument rfl).2, rfl⟩

end Policy

end PolicySeal
