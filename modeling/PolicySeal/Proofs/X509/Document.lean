import PolicySeal.Proofs.Der.Timestamp
import PolicySeal.Proofs.X509.Name
import PolicySeal.X509.Document
/-
  PolicySeal.Proofs.X509.Document — certificates are read as they were written.

  What is written of a document is read as that document (`Document.decode?_encode`), as long as
  its whole encoding is not too long and each of its parts is one that is read
  (`Document.Readable`): the identifiers, the serial number, the times. Parts that are left out
  because they have their default value are found missing, since fields are told by their numbers
  and stand in their order (`takeField`).
-/

namespace PolicySeal.X509

open Der

/-! ## Algorithms and keys -/

/-- The identifier is read from its encoding, and the parameter is of a known type. -/
structure AlgorithmId.Readable (a : AlgorithmId) : Prop where
  oid : a.oid.Readable
  parameters : ∀ p ∈ a.parameters, Tag.isKnown p.tag = true

theorem AlgorithmId.ofElement?_toElement {a : AlgorithmId} (h : a.Readable)
    (hlength : a.toElement.content.length ≤ maxLength) : ofElement? a.toElement = some a := by
  have hinside : a.toElement.inside? Tag.sequence = some (a.oid.toElement :: a.parameters.toList) :=
    inside?_wrap hlength (by simpa [Oid.toElement] using h.parameters)
  rw [ofElement?, hinside]
  have hoid := Oid.ofElement?_toElement h.oid
  obtain ⟨oid, parameters⟩ := a
  cases parameters <;> simp_all

theorem AlgorithmId.readable_plain {oid : Oid} (h : oid.Readable) : (plain oid).Readable :=
  ⟨h, fun p hp => by cases hp; rfl⟩

/-- The algorithm is read from its encoding, and the bits are a bit string. -/
structure KeyInfo.Readable (k : KeyInfo) : Prop where
  algorithm : k.algorithm.Readable
  bits : k.bits.Valid

theorem KeyInfo.ofElement?_toElement {k : KeyInfo} (h : k.Readable) (hlength : k.toElement.content.length ≤ maxLength) :
    ofElement? k.toElement = some k := by
  have hinside : k.toElement.inside? Tag.sequence = some [k.algorithm.toElement, k.bits.toElement] :=
    inside?_wrap hlength (by simp [AlgorithmId.toElement, BitString.toElement, Der.sequence, wrap])
  have halgorithm := AlgorithmId.ofElement?_toElement h.algorithm (length_le_of_mem List.mem_cons_self hlength)
  simp [ofElement?, hinside, halgorithm, BitString.ofElement?_toElement h.bits]

theorem KeyInfo.readable_ofRsa (key : Rsa.PublicKey) : (ofRsa key).Readable :=
  ⟨AlgorithmId.readable_plain (by decide), BitString.valid_ofBytes _⟩

/-- The bits of an RSA key are read as that key. -/
theorem KeyInfo.numbers?_ofRsa {key : Rsa.PublicKey} (hlength : (ofRsa key).toElement.content.length ≤ maxLength) :
    numbers? (ofRsa key).bits = some key := by
  have hbits : (ofRsa key).bits.toElement.content.length ≤ maxLength :=
    length_le_of_mem (List.mem_cons_of_mem _ List.mem_cons_self) hlength
  have hinner : (Der.sequence [natural key.modulus, natural key.exponent]).content.length ≤ maxLength :=
    Nat.le_trans (Nat.le_of_lt (Element.length_lt_encode _)) (Nat.le_of_succ_le hbits)
  have hone : Element.one? (Der.sequence [natural key.modulus, natural key.exponent]).encode = some _ :=
    Element.one?_encode ⟨rfl, hinner⟩
  have hinside : (Der.sequence [natural key.modulus, natural key.exponent]).inside? Tag.sequence = some _ :=
    inside?_wrap hinner (by simp [natural])
  simp [numbers?, ofRsa, hone, hinside, natural?_natural]

theorem KeyInfo.rsa?_ofRsa_of_lt {key : Rsa.PublicKey} (hbits : maxBits < key.bits)
    (hlength : (ofRsa key).toElement.content.length ≤ maxLength) : (ofRsa key).rsa? = .error "modulus too large" := by
  have halgorithm : (ofRsa key).algorithm = .rsa := rfl
  simp [rsa?, halgorithm, numbers?_ofRsa hlength, hbits]

theorem KeyInfo.rsa?_ofRsa {key : Rsa.PublicKey} (hsound : key.isSound = true) (hbits : key.bits ≤ maxBits)
    (hlength : (ofRsa key).toElement.content.length ≤ maxLength) : (ofRsa key).rsa? = .ok key := by
  have halgorithm : (ofRsa key).algorithm = .rsa := rfl
  simp [rsa?, halgorithm, numbers?_ofRsa hlength, hsound, Nat.not_lt.mpr hbits]

/-! ## Validity and extensions -/

structure Validity.Readable (v : Validity) : Prop where
  notBefore : v.notBefore.Valid
  notAfter : v.notAfter.Valid

/-- Both dates are before the year 10000. -/
structure Validity.Bounded (v : Validity) : Prop where
  notBefore : v.notBefore.seconds < Timestamp.limit
  notAfter : v.notAfter.seconds < Timestamp.limit

theorem Validity.Readable.bounded {v : Validity} (h : v.Readable) : v.Bounded :=
  ⟨h.notBefore.seconds_lt, h.notAfter.seconds_lt⟩

theorem isKnown_timestamp (t : Timestamp) : Tag.isKnown t.toElement.tag = true := by
  obtain ⟨form, seconds⟩ := t
  cases form <;> rfl

theorem Validity.ofElement?_toElement {v : Validity} (h : v.Readable) (hlength : v.toElement.content.length ≤ maxLength) :
    ofElement? v.toElement = some v := by
  have hinside : v.toElement.inside? Tag.sequence = some [v.notBefore.toElement, v.notAfter.toElement] :=
    inside?_wrap hlength (by simp [isKnown_timestamp])
  simp [ofElement?, hinside, Timestamp.ofElement?_toElement h.notBefore, Timestamp.ofElement?_toElement h.notAfter]

theorem Extension.ofElement?_toElement {x : Extension} (h : x.oid.Readable)
    (hlength : x.toElement.content.length ≤ maxLength) : ofElement? x.toElement = some x := by
  have hinside : x.toElement.inside? Tag.sequence
      = some (x.oid.toElement :: (if x.critical then [boolean true] else []) ++ [octets x.value]) := by
    refine inside?_wrap hlength ?_
    cases x.critical <;> simp [Oid.toElement, octets, boolean]
  have hoid := Oid.ofElement?_toElement h
  obtain ⟨oid, critical, value⟩ := x
  cases critical <;> simp_all [ofElement?, octets, boolean?_boolean]

/-! ## Statements -/

namespace Statement

/-- Each part of a statement is one that is read. -/
structure Readable (s : Statement) : Prop where
  version : s.version ≤ maxVersion
  serial : isMinimalInteger s.serial = true
  serialLength : s.serial.length ≤ maxSerialLength
  algorithm : s.algorithm.Readable
  issuer : s.issuer.Readable
  validity : s.validity.Readable
  subject : s.subject.Readable
  key : s.key.Readable
  issuerId : ∀ b ∈ s.issuerId, b.Valid
  subjectId : ∀ b ∈ s.subjectId, b.Valid
  extensions : ∀ xs ∈ s.extensions, ∀ x ∈ xs, x.oid.Readable

/-- The fields that stand in every statement. -/
def fixedFields (s : Statement) : List Element :=
  [⟨Tag.integer, s.serial⟩, s.algorithm.toElement, s.issuer.toElement, s.validity.toElement, s.subject.toElement,
    s.key.toElement]

def fields (s : Statement) : List Element :=
  versionField s.version ++ s.fixedFields ++ idField 1 s.issuerId ++ idField 2 s.subjectId ++ extensionsField s.extensions

theorem toElement_eq (s : Statement) : s.toElement = Der.sequence s.fields := rfl

theorem isKnown_fields (s : Statement) : ∀ e ∈ s.fields, Tag.isKnown e.tag = true := by
  have hversion : ∀ e ∈ versionField s.version, Tag.isKnown e.tag = true := by
    rw [versionField]
    split <;> simp [wrap, isKnown_field]
  have hfixed : ∀ e ∈ s.fixedFields, Tag.isKnown e.tag = true := by
    simp [fixedFields, AlgorithmId.toElement, Name.toElement, Validity.toElement, KeyInfo.toElement, Der.sequence, wrap]
  have hid : ∀ n < 31, ∀ id, ∀ e ∈ idField n id, Tag.isKnown e.tag = true := by
    intro n hn id
    cases id <;> simp [idField, isKnown_field n hn]
  have hextensions : ∀ e ∈ extensionsField s.extensions, Tag.isKnown e.tag = true := by
    cases s.extensions <;> simp [extensionsField, wrap, isKnown_field]
  simp only [fields, List.forall_mem_append]
  exact ⟨⟨⟨⟨hversion, hfixed⟩, hid 1 (by decide) _⟩, hid 2 (by decide) _⟩, hextensions⟩

/-! The optional fields are taken from the front one after the other, each that is there. -/

theorem takeField_version (s : Statement) (rest : List Element) :
    takeField 0 (versionField s.version ++ (s.fixedFields ++ rest))
      = ((versionField s.version).head?, s.fixedFields ++ rest) := by
  rw [versionField]
  split
  · exact takeField_of_none (if_neg (show ¬ Tag.integer &&& 0xC0 = 0x80 by decide))
  · exact takeField_of_eq (fieldNumber?_explicitField (by decide) _)

theorem takeField_extensions (xs : Option (List Extension)) :
    takeField 3 (extensionsField xs) = ((extensionsField xs).head?, []) := by
  cases xs with
  | none => rfl
  | some xs => exact takeField_of_eq (fieldNumber?_explicitField (by decide) _)

theorem takeField_before_extensions {n : Nat} (h : n < 3) (xs : Option (List Extension)) :
    takeField n (extensionsField xs) = (none, extensionsField xs) := by
  cases xs with
  | none => rfl
  | some xs => exact takeField_of_lt (fieldNumber?_explicitField (by decide) _) h

theorem takeField_subjectId (id : Option BitString) (xs : Option (List Extension)) :
    takeField 2 (idField 2 id ++ extensionsField xs) = ((idField 2 id).head?, extensionsField xs) := by
  cases id with
  | none => exact takeField_before_extensions (by decide) xs
  | some b => exact takeField_of_eq (fieldNumber?_implicitField (by decide) _)

theorem takeField_issuerId (id id' : Option BitString) (xs : Option (List Extension)) :
    takeField 1 (idField 1 id ++ (idField 2 id' ++ extensionsField xs))
      = ((idField 1 id).head?, idField 2 id' ++ extensionsField xs) := by
  cases id with
  | none =>
    cases id' with
    | none => exact takeField_before_extensions (by decide) xs
    | some b => exact takeField_of_lt (fieldNumber?_implicitField (by decide) _) (by decide)
  | some b => exact takeField_of_eq (fieldNumber?_implicitField (by decide) _)

/-! Each of them is read as what it was written for. -/

theorem version?_versionField {n : Nat} (h : n ≤ maxVersion)
    (hlength : ∀ e ∈ versionField n, e.content.length ≤ maxLength) : version? (versionField n).head? = some n := by
  rw [versionField] at hlength ⊢
  split
  · rename_i hzero
    rw [hzero]
    rfl
  · rename_i hne
    rw [if_neg hne, List.forall_mem_singleton] at hlength
    simp [version?, explicit?_wrap hlength rfl, natural?_natural, h]

theorem id?_idField {n : Nat} {id : Option BitString} (h : ∀ b ∈ id, b.Valid) : id? n (idField n id).head? = some id := by
  cases id with
  | none => rfl
  | some b => simp [id?, idField, BitString.ofContent?_content (h b rfl)]

theorem extensions?_extensionsField {xs : Option (List Extension)} (h : ∀ l ∈ xs, ∀ x ∈ l, x.oid.Readable)
    (hlength : ∀ e ∈ extensionsField xs, e.content.length ≤ maxLength) :
    extensions? (extensionsField xs).head? = some xs := by
  cases xs with
  | none => rfl
  | some xs =>
    rw [extensionsField, List.forall_mem_singleton] at hlength
    have hlist := length_le_of_mem List.mem_cons_self hlength
    have hinside : (sequence (xs.map Extension.toElement)).inside? Tag.sequence = some (xs.map Extension.toElement) := by
      refine inside?_wrap hlist fun e he => ?_
      obtain ⟨x, -, rfl⟩ := List.mem_map.mp he
      rfl
    have hxs : (xs.map Extension.toElement).mapM Extension.ofElement? = some xs :=
      mapM_map_eq_some fun x hx =>
        Extension.ofElement?_toElement (h xs rfl x hx) (length_le_of_mem (List.mem_map_of_mem hx) hlist)
    simp [extensions?, extensionsField, explicit?_wrap hlength rfl, hinside, hxs]

theorem serial?_serial {serial : Bytes} (h : isMinimalInteger serial = true) (hlength : serial.length ≤ maxSerialLength) :
    (integerBytes? ⟨Tag.integer, serial⟩).filter (·.length ≤ maxSerialLength) = some serial := by
  simp [integerBytes?, h, hlength]

/-- A statement is read field by field, each that is missing as such. -/
theorem ofElement?_eq {s : Statement} (hlength : s.toElement.content.length ≤ maxLength) : ofElement? s.toElement = (do
    return {
      version := ← version? (versionField s.version).head?
      serial := ← (integerBytes? ⟨Tag.integer, s.serial⟩).filter (·.length ≤ maxSerialLength)
      algorithm := ← AlgorithmId.ofElement? s.algorithm.toElement
      issuer := ← Name.ofElement? s.issuer.toElement
      validity := ← Validity.ofElement? s.validity.toElement
      subject := ← Name.ofElement? s.subject.toElement
      key := ← KeyInfo.ofElement? s.key.toElement
      issuerId := ← id? 1 (idField 1 s.issuerId).head?
      subjectId := ← id? 2 (idField 2 s.subjectId).head?
      extensions := ← extensions? (extensionsField s.extensions).head? }) := by
  have hinside : s.toElement.inside? Tag.sequence
      = some (versionField s.version ++ (s.fixedFields ++ (idField 1 s.issuerId ++ (idField 2 s.subjectId
        ++ extensionsField s.extensions)))) := by
    rw [toElement_eq] at hlength ⊢
    rw [Der.sequence, inside?_wrap hlength (isKnown_fields s), fields]
    simp only [List.append_assoc]
  rw [ofElement?, hinside, Option.bind_eq_bind, Option.bind_some, takeField_version]
  simp only [fixedFields, List.cons_append, List.nil_append, takeField_issuerId, takeField_subjectId, takeField_extensions]
  rfl

section

variable {s : Statement} (hlength : s.toElement.content.length ≤ maxLength)

include hlength

theorem length_field {e : Element} (h : e ∈ s.fields) : e.content.length ≤ maxLength := length_le_of_mem h hlength

theorem length_key : s.key.toElement.content.length ≤ maxLength :=
  length_field hlength (by simp [fields, fixedFields])

theorem ofElement?_toElement (h : s.Readable) : ofElement? s.toElement = some s := by
  have hshort : ∀ e ∈ s.fields, e.content.length ≤ maxLength := fun e he => length_field hlength he
  simp only [fields, fixedFields, List.forall_mem_append, List.forall_mem_cons] at hshort
  obtain ⟨⟨⟨⟨hversion, -, halgorithm, hissuer, hvalidity, hsubject, hkey, -⟩, -⟩, -⟩, hextensions⟩ := hshort
  rw [ofElement?_eq hlength]
  simp [version?_versionField h.version hversion, serial?_serial h.serial h.serialLength,
    AlgorithmId.ofElement?_toElement h.algorithm halgorithm, Name.ofElement?_toElement hissuer h.issuer,
    Validity.ofElement?_toElement h.validity hvalidity, Name.ofElement?_toElement hsubject h.subject,
    KeyInfo.ofElement?_toElement h.key hkey, id?_idField h.issuerId, id?_idField h.subjectId,
    extensions?_extensionsField h.extensions hextensions]

/-- If a statement is read at all, its names are. -/
theorem names_readable_of_ofElement? {t : Statement} (hissuer : s.issuer.HasKnownValues)
    (hsubject : s.subject.HasKnownValues) (h : ofElement? s.toElement = some t) : s.issuer.Readable ∧ s.subject.Readable := by
  rw [ofElement?_eq hlength] at h
  obtain ⟨_, -, h⟩ := Option.bind_eq_some_iff.mp h
  obtain ⟨_, -, h⟩ := Option.bind_eq_some_iff.mp h
  obtain ⟨_, -, h⟩ := Option.bind_eq_some_iff.mp h
  obtain ⟨_, hreadIssuer, h⟩ := Option.bind_eq_some_iff.mp h
  obtain ⟨_, -, h⟩ := Option.bind_eq_some_iff.mp h
  obtain ⟨_, hreadSubject, -⟩ := Option.bind_eq_some_iff.mp h
  exact ⟨Name.readable_of_ofElement? (length_field hlength (by simp [fields, fixedFields])) hissuer hreadIssuer,
    Name.readable_of_ofElement? (length_field hlength (by simp [fields, fixedFields])) hsubject hreadSubject⟩

end

end Statement

/-! ## Documents -/

/-- Each part of a document is one that is read. -/
structure Document.Readable (d : Document) : Prop where
  statement : d.statement.Readable
  algorithm : d.algorithm.Readable
  signature : d.signature.Valid

section

variable {d : Document}

theorem Document.inside?_toElement (hlength : d.toElement.content.length ≤ maxLength) :
    d.toElement.inside? Tag.sequence = some [d.statement.toElement, d.algorithm.toElement, d.signature.toElement] :=
  inside?_wrap hlength (by simp [Statement.toElement_eq, AlgorithmId.toElement, BitString.toElement, Der.sequence, wrap])

theorem Document.ofElement?_toElement (hlength : d.toElement.content.length ≤ maxLength) (h : d.Readable) :
    ofElement? d.toElement = some d := by
  have hstatement : d.statement.toElement.content.length ≤ maxLength := length_le_of_mem List.mem_cons_self hlength
  have halgorithm : d.algorithm.toElement.content.length ≤ maxLength :=
    length_le_of_mem (List.mem_cons_of_mem _ List.mem_cons_self) hlength
  simp [ofElement?, inside?_toElement hlength, Statement.ofElement?_toElement hstatement h.statement,
    AlgorithmId.ofElement?_toElement h.algorithm halgorithm, BitString.ofElement?_toElement h.signature]

variable (hlength : d.encode.length ≤ maxLength)

include hlength

theorem Document.length_content : d.toElement.content.length ≤ maxLength :=
  Nat.le_trans (Nat.le_of_lt d.toElement.length_lt_encode) hlength

theorem Document.length_statement : d.statement.toElement.content.length ≤ maxLength :=
  length_le_of_mem List.mem_cons_self (length_content hlength)

theorem Document.decode?_eq : decode? d.encode = ofElement? d.toElement := by
  rw [decode?, if_neg (Nat.not_lt.mpr hlength), encode, Element.one?_encode ⟨rfl, length_content hlength⟩, Option.bind_some]

/-- A document whose parts are such as are read, and that is not too long, is read from its encoding. -/
theorem Document.decode?_encode (h : d.Readable) : decode? d.encode = some d := by
  rw [decode?_eq hlength, ofElement?_toElement (length_content hlength) h]

/-- If a document is read at all, the names in it are. -/
theorem Document.names_readable_of_decode? {d' : Document} (hissuer : d.statement.issuer.HasKnownValues)
    (hsubject : d.statement.subject.HasKnownValues) (h : decode? d.encode = some d') :
    d.statement.issuer.Readable ∧ d.statement.subject.Readable := by
  rw [decode?_eq hlength, ofElement?, inside?_toElement (length_content hlength), Option.bind_eq_bind,
    Option.bind_some] at h
  obtain ⟨statement, hstatement, -⟩ := Option.bind_eq_some_iff.mp h
  exact Statement.names_readable_of_ofElement? (length_statement hlength) hissuer hsubject hstatement

end

end PolicySeal.X509
