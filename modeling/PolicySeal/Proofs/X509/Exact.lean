import PolicySeal.Proofs.Der.Exact
import PolicySeal.Proofs.X509.Document
/-
  PolicySeal.Proofs.X509.Exact — certificates that were read can be written, and read again.

  Algorithms, keys, dates and attributes are read only as they are written. Three things are read in
  more ways than one: the attributes of a part of a name in any order, parts of a certificate that
  have their default value and need not be there, and fields that are passed over. What is written
  for them is no longer than what was read. So each part of a document that was read is one that is
  read from its own encoding (`Document.Readable`), and the whole encoding stays short enough: the
  document is what its encoding is read as (`Document.decode?_encode_of_decode?`).
-/

namespace PolicySeal.X509

open Der

/-! ## Rows of parts -/

section

variable {β : Type} {f : Element → Option β} {g : β → Element} {es : List Element} {bs : List β}

theorem eq_map_of_mapM (h : es.mapM f = some bs) (hf : ∀ e b, f e = some b → e = g b) : es = bs.map g := by
  induction es generalizing bs with
  | nil =>
    cases h
    rfl
  | cons e es ih =>
    rw [List.mapM_cons] at h
    obtain ⟨b, hb, h⟩ := Option.bind_eq_some_iff.mp h
    obtain ⟨rest, hrest, h⟩ := Option.bind_eq_some_iff.mp h
    cases h
    rw [List.map_cons, ← hf e b hb, ← ih hrest]

/-- If no part is written longer than it was read, the row is not. -/
theorem total_map_le (h : es.mapM f = some bs) (hf : ∀ e b, f e = some b → (g b).encode.length ≤ e.encode.length) :
    Element.total (bs.map g) ≤ Element.total es := by
  induction es generalizing bs with
  | nil =>
    cases h
    exact Nat.le_refl _
  | cons e es ih =>
    rw [List.mapM_cons] at h
    obtain ⟨b, hb, h⟩ := Option.bind_eq_some_iff.mp h
    obtain ⟨rest, hrest, h⟩ := Option.bind_eq_some_iff.mp h
    cases h
    rw [List.map_cons, Element.total_cons, Element.total_cons]
    exact Nat.add_le_add (hf e b hb) (ih hrest)

end

variable {e : Element}

/-! ## Algorithms, keys and dates -/

theorem AlgorithmId.ofElement?_eq_some {a : AlgorithmId} (h : ofElement? e = some a) : e = a.toElement ∧ a.Readable := by
  obtain ⟨es, hinside, hparts⟩ := Option.bind_eq_some_iff.mp h
  obtain ⟨rfl, hfits⟩ := Element.inside?_eq_some hinside
  split at hparts
  · obtain ⟨oid, hoid, hparts⟩ := Option.bind_eq_some_iff.mp hparts
    cases hparts
    obtain ⟨rfl, hreadable⟩ := Oid.ofElement?_eq_some hoid
    exact ⟨rfl, hreadable, nofun⟩
  · obtain ⟨oid, hoid, hparts⟩ := Option.bind_eq_some_iff.mp hparts
    cases hparts
    obtain ⟨rfl, hreadable⟩ := Oid.ofElement?_eq_some hoid
    refine ⟨rfl, hreadable, fun p hp => ?_⟩
    cases hp
    exact (hfits _ (by simp)).known
  · cases hparts

theorem KeyInfo.ofElement?_eq_some {k : KeyInfo} (h : ofElement? e = some k) : e = k.toElement ∧ k.Readable := by
  obtain ⟨es, hinside, hparts⟩ := Option.bind_eq_some_iff.mp h
  obtain ⟨rfl, -⟩ := Element.inside?_eq_some hinside
  split at hparts
  · obtain ⟨algorithm, halgorithm, hparts⟩ := Option.bind_eq_some_iff.mp hparts
    obtain ⟨bits, hbits, hparts⟩ := Option.bind_eq_some_iff.mp hparts
    cases hparts
    obtain ⟨rfl, hreadable⟩ := AlgorithmId.ofElement?_eq_some halgorithm
    obtain ⟨rfl, hvalid⟩ := BitString.ofElement?_eq_some hbits
    exact ⟨rfl, hreadable, hvalid⟩
  · cases hparts

theorem Validity.ofElement?_eq_some {v : Validity} (h : ofElement? e = some v) : e = v.toElement ∧ v.Readable := by
  obtain ⟨es, hinside, hparts⟩ := Option.bind_eq_some_iff.mp h
  obtain ⟨rfl, -⟩ := Element.inside?_eq_some hinside
  split at hparts
  · obtain ⟨notBefore, hnotBefore, hparts⟩ := Option.bind_eq_some_iff.mp hparts
    obtain ⟨notAfter, hnotAfter, hparts⟩ := Option.bind_eq_some_iff.mp hparts
    cases hparts
    obtain ⟨rfl, hbefore⟩ := Timestamp.ofElement?_eq_some hnotBefore
    obtain ⟨rfl, hafter⟩ := Timestamp.ofElement?_eq_some hnotAfter
    exact ⟨rfl, hbefore, hafter⟩
  · cases hparts

/-! ## Names -/

theorem Attribute.ofElement?_eq_some {a : Attribute} (h : ofElement? e = some a) : e = a.toElement ∧ a.Readable := by
  obtain ⟨es, hinside, hparts⟩ := Option.bind_eq_some_iff.mp h
  obtain ⟨rfl, hfits⟩ := Element.inside?_eq_some hinside
  split at hparts
  · obtain ⟨type, htype, hparts⟩ := Option.bind_eq_some_iff.mp hparts
    cases hparts
    obtain ⟨rfl, hreadable⟩ := Oid.ofElement?_eq_some htype
    exact ⟨rfl, hreadable, (hfits _ (by simp)).known⟩
  · cases hparts

theorem Rdn.perm_of_ofList? {as : List Attribute} {r : Rdn} (h : ofList? as = some r) : r.attributes.Perm as := by
  simp only [ofList?] at h
  split at h
  · cases h
    exact List.mergeSort_perm ..
  · cases h

/-- The attributes of a part come in the order of their encodings, and are the same as were read. -/
theorem Rdn.ofElement?_eq_some {r : Rdn} (h : ofElement? e = some r) :
    r.Readable ∧ r.toElement.encode.length ≤ e.encode.length := by
  obtain ⟨es, hinside, h⟩ := Option.bind_eq_some_iff.mp h
  obtain ⟨as, hattributes, hlist⟩ := Option.bind_eq_some_iff.mp h
  obtain ⟨rfl, -⟩ := Element.inside?_eq_some hinside
  obtain rfl := eq_map_of_mapM hattributes fun _ _ ha => (Attribute.ofElement?_eq_some ha).1
  have hperm := perm_of_ofList? hlist
  refine ⟨fun a ha => ?_, Element.length_wrap_le (Nat.le_of_eq (Element.total_eq_of_perm (hperm.map _)))⟩
  obtain ⟨_, -, hread⟩ := mem_of_mapM_eq_some hattributes (hperm.mem_iff.mp ha)
  exact (Attribute.ofElement?_eq_some hread).2

theorem Name.ofElement?_eq_some {n : Name} (h : ofElement? e = some n) :
    n.Readable ∧ n.toElement.encode.length ≤ e.encode.length := by
  obtain ⟨es, hinside, h⟩ := Option.bind_eq_some_iff.mp h
  obtain ⟨parts, hparts, h⟩ := Option.bind_eq_some_iff.mp h
  cases h
  obtain ⟨rfl, -⟩ := Element.inside?_eq_some hinside
  refine ⟨fun r hr => ?_, Element.length_wrap_le (total_map_le hparts fun _ _ hr => (Rdn.ofElement?_eq_some hr).2)⟩
  obtain ⟨_, -, hread⟩ := mem_of_mapM_eq_some hparts hr
  exact (Rdn.ofElement?_eq_some hread).1

/-! ## Extensions -/

/-- An extension that is said not to be critical is written without that. -/
theorem Extension.ofElement?_eq_some {x : Extension} (h : ofElement? e = some x) :
    x.oid.Readable ∧ x.toElement.encode.length ≤ e.encode.length := by
  obtain ⟨es, hinside, hparts⟩ := Option.bind_eq_some_iff.mp h
  obtain ⟨rfl, -⟩ := Element.inside?_eq_some hinside
  split at hparts
  · obtain ⟨oid, hoid, hparts⟩ := Option.bind_eq_some_iff.mp hparts
    obtain ⟨value, hvalue, hparts⟩ := Option.bind_eq_some_iff.mp hparts
    cases hparts
    obtain ⟨rfl, hreadable⟩ := Oid.ofElement?_eq_some hoid
    rw [Element.tagged?_eq_some hvalue]
    exact ⟨hreadable, Nat.le_refl _⟩
  · obtain ⟨oid, hoid, hparts⟩ := Option.bind_eq_some_iff.mp hparts
    obtain ⟨critical, hcritical, hparts⟩ := Option.bind_eq_some_iff.mp hparts
    obtain ⟨value, hvalue, hparts⟩ := Option.bind_eq_some_iff.mp hparts
    cases hparts
    obtain ⟨rfl, hreadable⟩ := Oid.ofElement?_eq_some hoid
    rw [Element.tagged?_eq_some hvalue, boolean?_eq_some hcritical]
    refine ⟨hreadable, Element.length_wrap_le ?_⟩
    cases critical
    · exact Element.total_le_of_sublist (.cons_cons _ (.cons _ (.refl _)))
    · exact Nat.le_refl _
  · cases hparts

/-! ## Statements -/

namespace Statement

/-- The fields of a statement as they are found: those that stand in every statement, and those that may be missing. -/
structure Fields where
  version : Option Element
  serial : Element
  algorithm : Element
  issuer : Element
  validity : Element
  subject : Element
  key : Element
  issuerId : Option Element
  subjectId : Option Element
  extensions : Option Element

namespace Fields

def elements (f : Fields) : List Element :=
  f.version.toList ++ ([f.serial, f.algorithm, f.issuer, f.validity, f.subject, f.key]
    ++ (f.issuerId.toList ++ (f.subjectId.toList ++ f.extensions.toList)))

/-- Each field is read as a part of the statement. -/
structure Tell (f : Fields) (s : Statement) : Prop where
  version : version? f.version = some s.version
  serial : (integerBytes? f.serial).filter (·.length ≤ maxSerialLength) = some s.serial
  algorithm : AlgorithmId.ofElement? f.algorithm = some s.algorithm
  issuer : Name.ofElement? f.issuer = some s.issuer
  validity : Validity.ofElement? f.validity = some s.validity
  subject : Name.ofElement? f.subject = some s.subject
  key : KeyInfo.ofElement? f.key = some s.key
  issuerId : id? 1 f.issuerId = some s.issuerId
  subjectId : id? 2 f.subjectId = some s.subjectId
  extensions : extensions? f.extensions = some s.extensions

end Fields

/-- A statement is read from fields that stand in it, maybe with others between them. -/
theorem exists_fields {s : Statement} (h : ofElement? e = some s) :
    ∃ (es : List Element) (f : Fields), e.inside? Tag.sequence = some es ∧ f.elements.Sublist es ∧ f.Tell s := by
  obtain ⟨es, hinside, h⟩ := Option.bind_eq_some_iff.mp h
  have hversion := takeField_sublist 0 es
  generalize takeField 0 es = found at h hversion
  obtain ⟨version, rest⟩ := found
  dsimp only at h hversion
  split at h
  · rename_i serial algorithm issuer validity subject key rest
    have hissuerId := takeField_sublist 1 rest
    generalize takeField 1 rest = found at h hissuerId
    obtain ⟨issuerId, rest⟩ := found
    dsimp only at h hissuerId
    have hsubjectId := takeField_sublist 2 rest
    generalize takeField 2 rest = found at h hsubjectId
    obtain ⟨subjectId, rest⟩ := found
    dsimp only at h hsubjectId
    have hextensions := takeField_sublist 3 rest
    generalize takeField 3 rest = found at h hextensions
    obtain ⟨extensions, rest⟩ := found
    dsimp only at h hextensions
    split at h
    · cases h
    · simp only [Option.bind_eq_bind, Option.bind_eq_some_iff, Option.pure_def, Option.some.injEq] at h
      obtain ⟨_, hv, _, hs, _, ha, _, hi, _, hd, _, hn, _, hk, _, hid, _, hsid, _, hx, rfl⟩ := h
      refine ⟨es, ⟨version, serial, algorithm, issuer, validity, subject, key, issuerId, subjectId, extensions⟩, hinside, ?_,
        ⟨hv, hs, ha, hi, hd, hn, hk, hid, hsid, hx⟩⟩
      have hthree : extensions.toList.Sublist _ := (List.sublist_append_left _ _).trans hextensions
      have htwo := ((List.Sublist.refl subjectId.toList).append hthree).trans hsubjectId
      have hone := ((List.Sublist.refl issuerId.toList).append htwo).trans hissuerId
      exact ((List.Sublist.refl version.toList).append ((List.Sublist.refl _).append hone)).trans hversion
  · cases h

/-! Each optional field is read as what it is written for, if it is written. -/

theorem version?_eq_some {found : Option Element} {n : Nat} (h : version? found = some n) :
    n ≤ maxVersion ∧ Element.total (versionField n) ≤ Element.total found.toList := by
  cases found with
  | none =>
    cases h
    exact ⟨Nat.zero_le _, Nat.le_refl _⟩
  | some e =>
    obtain ⟨inner, hexplicit, hnatural⟩ := Option.bind_eq_some_iff.mp h
    obtain ⟨hn, hmax⟩ := Option.filter_eq_some_iff.mp hnatural
    obtain ⟨rfl, -⟩ := Element.explicit?_eq_some hexplicit
    refine ⟨of_decide_eq_true hmax, ?_⟩
    rw [natural?_eq_some hn, versionField]
    split
    · exact Nat.zero_le _
    · exact Nat.le_refl _

theorem id?_eq_some {n : Nat} {found : Option Element} {id : Option BitString} (h : id? n found = some id) :
    (∀ b ∈ id, b.Valid) ∧ Element.total (idField n id) ≤ Element.total found.toList := by
  cases found with
  | none =>
    cases h
    exact ⟨nofun, Nat.le_refl _⟩
  | some e =>
    obtain ⟨content, htag, h⟩ := Option.bind_eq_some_iff.mp h
    obtain ⟨b, hb, h⟩ := Option.bind_eq_some_iff.mp h
    cases h
    obtain ⟨rfl, hvalid⟩ := BitString.ofContent?_eq_some hb
    refine ⟨fun b' hb' => by cases hb'; exact hvalid, ?_⟩
    rw [Element.tagged?_eq_some htag]
    exact Nat.le_refl _

theorem extensions?_eq_some {found : Option Element} {xs : Option (List Extension)} (h : extensions? found = some xs) :
    (∀ l ∈ xs, ∀ x ∈ l, x.oid.Readable) ∧ Element.total (extensionsField xs) ≤ Element.total found.toList := by
  cases found with
  | none =>
    cases h
    exact ⟨nofun, Nat.le_refl _⟩
  | some e =>
    obtain ⟨inner, hexplicit, h⟩ := Option.bind_eq_some_iff.mp h
    obtain ⟨es, hinside, h⟩ := Option.bind_eq_some_iff.mp h
    obtain ⟨l, hl, h⟩ := Option.bind_eq_some_iff.mp h
    cases h
    obtain ⟨rfl, -⟩ := Element.explicit?_eq_some hexplicit
    obtain ⟨rfl, -⟩ := Element.inside?_eq_some hinside
    refine ⟨fun l' hl' x hx => ?_, ?_⟩
    · cases hl'
      obtain ⟨_, -, hread⟩ := mem_of_mapM_eq_some hl hx
      exact (Extension.ofElement?_eq_some hread).1
    · have hlist : (Der.sequence (l.map Extension.toElement)).encode.length ≤ (wrap Tag.sequence es).encode.length :=
        Element.length_wrap_le (total_map_le hl fun _ _ hx => (Extension.ofElement?_eq_some hx).2)
      simp only [extensionsField, Option.toList_some, Element.total_cons, Element.total_nil]
      exact Nat.add_le_add_right (Element.length_wrap_le (by simpa using hlist)) 0

theorem serial_eq_some {e : Element} {serial : Bytes}
    (h : (integerBytes? e).filter (·.length ≤ maxSerialLength) = some serial) :
    e = ⟨Tag.integer, serial⟩ ∧ isMinimalInteger serial = true ∧ serial.length ≤ maxSerialLength := by
  obtain ⟨hserial, hmax⟩ := Option.filter_eq_some_iff.mp h
  obtain ⟨he, hminimal⟩ := integerBytes?_eq_some hserial
  exact ⟨he, hminimal, of_decide_eq_true hmax⟩

/-- What is told by fields can be read again, and is written no longer than they are. -/
theorem Fields.Tell.readable {f : Fields} {s : Statement} (h : f.Tell s) :
    s.Readable ∧ Element.total s.fields ≤ Element.total f.elements := by
  obtain ⟨hversion, hversionLength⟩ := version?_eq_some h.version
  obtain ⟨hserial, hminimal, hmax⟩ := serial_eq_some h.serial
  obtain ⟨halgorithm, halgorithmReadable⟩ := AlgorithmId.ofElement?_eq_some h.algorithm
  obtain ⟨hissuer, hissuerLength⟩ := Name.ofElement?_eq_some h.issuer
  obtain ⟨hvalidity, hvalidityReadable⟩ := Validity.ofElement?_eq_some h.validity
  obtain ⟨hsubject, hsubjectLength⟩ := Name.ofElement?_eq_some h.subject
  obtain ⟨hkey, hkeyReadable⟩ := KeyInfo.ofElement?_eq_some h.key
  obtain ⟨hissuerId, hissuerIdLength⟩ := id?_eq_some h.issuerId
  obtain ⟨hsubjectId, hsubjectIdLength⟩ := id?_eq_some h.subjectId
  obtain ⟨hextensions, hextensionsLength⟩ := extensions?_eq_some h.extensions
  refine ⟨⟨hversion, hminimal, hmax, halgorithmReadable, hissuer, hvalidityReadable, hsubject, hkeyReadable, hissuerId,
    hsubjectId, hextensions⟩, ?_⟩
  rw [fields, fixedFields, Fields.elements, hserial, halgorithm, hvalidity, hkey]
  simp only [Element.total_append, Element.total_cons, Element.total_nil]
  omega

theorem ofElement?_eq_some {s : Statement} (h : ofElement? e = some s) :
    s.Readable ∧ s.toElement.encode.length ≤ e.encode.length := by
  obtain ⟨es, f, hinside, hsublist, htell⟩ := exists_fields h
  obtain ⟨rfl, -⟩ := Element.inside?_eq_some hinside
  obtain ⟨hreadable, hlength⟩ := htell.readable
  exact ⟨hreadable, Element.length_wrap_le (Nat.le_trans hlength (Element.total_le_of_sublist hsublist))⟩

end Statement

/-! ## Documents -/

theorem Document.ofElement?_eq_some {d : Document} (h : ofElement? e = some d) :
    d.Readable ∧ d.encode.length ≤ e.encode.length := by
  obtain ⟨es, hinside, hparts⟩ := Option.bind_eq_some_iff.mp h
  obtain ⟨rfl, -⟩ := Element.inside?_eq_some hinside
  split at hparts
  · obtain ⟨statement, hstatement, hparts⟩ := Option.bind_eq_some_iff.mp hparts
    obtain ⟨algorithm, halgorithm, hparts⟩ := Option.bind_eq_some_iff.mp hparts
    obtain ⟨signature, hsignature, hparts⟩ := Option.bind_eq_some_iff.mp hparts
    cases hparts
    obtain ⟨hreadable, hlength⟩ := Statement.ofElement?_eq_some hstatement
    obtain ⟨rfl, halgorithmReadable⟩ := AlgorithmId.ofElement?_eq_some halgorithm
    obtain ⟨rfl, hvalid⟩ := BitString.ofElement?_eq_some hsignature
    refine ⟨⟨hreadable, halgorithmReadable, hvalid⟩, Element.length_wrap_le ?_⟩
    simp only [Element.total_cons]
    omega
  · cases hparts

/-- A document that was read is written no longer than it was read, and is read from that again. -/
theorem Document.decode?_encode_of_decode? {bs : Bytes} {d : Document} (h : decode? bs = some d) :
    d.Readable ∧ d.encode.length ≤ bs.length ∧ bs.length ≤ maxLength ∧ decode? d.encode = some d := by
  obtain ⟨hmax, hone⟩ := Option.ite_none_left_eq_some.mp h
  obtain ⟨e, hone, hread⟩ := Option.bind_eq_some_iff.mp hone
  obtain ⟨-, rfl⟩ := Element.one?_eq_some_iff.mp hone
  obtain ⟨hreadable, hlength⟩ := Document.ofElement?_eq_some hread
  have hfits := Nat.le_of_not_lt hmax
  exact ⟨hreadable, hlength, hfits, decode?_encode (Nat.le_trans hlength hfits) hreadable⟩

/-- The dates of a document that was read are before the year 10000. -/
theorem Document.bounded_of_decode? {bs : Bytes} {d : Document} (h : decode? bs = some d) :
    d.statement.validity.Bounded := (decode?_encode_of_decode? h).1.statement.validity.bounded

end PolicySeal.X509
