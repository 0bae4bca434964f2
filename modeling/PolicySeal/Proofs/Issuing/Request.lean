import PolicySeal.Issuing.Request
import PolicySeal.Proofs.Certificate
import PolicySeal.Proofs.Json.Shape
import PolicySeal.Proofs.Rsa.Signature
import PolicySeal.Proofs.Trust.Chain
/-
  PolicySeal.Proofs.Issuing.Request — what is issued is accepted, as it was requested.

  When a certificate is issued, its names and times are those of the request, and it is signed
  with the key of the issuer (`Issued`, `issueText_eq_ok`). Its parts are such as are read, except
  for the types of the attributes in its names, which need not be (`Issued.readable`). If they are,
  and the key of the subject is not too long, the text is accepted as a certificate with the key,
  the dates and the uses that were requested (`Issued.accepted`), otherwise it is not
  (`Issued.accepted_iff`). It verifies under the key of the issuer (`Issued.verifiesUnder`).
-/

namespace PolicySeal

open Der Json Time Trust X509

/-! ## The parts of a certificate -/

theorem positive_byte : ∀ n < 256, ((UInt8.ofNat n &&& 0x7F) ||| 1) ≠ 0 ∧ ((UInt8.ofNat n &&& 0x7F) ||| 1) < 0x80 := by
  decide +kernel

/-- A serial number is a positive integer in as few bytes as it needs, which are sixteen. -/
theorem serialOf_spec (random : Vector UInt8 16) :
    isMinimalInteger (serialOf random) = true ∧ (serialOf random).length = 16 := by
  have hlength : random.toList.length = 16 := Vector.length_toList
  rw [serialOf]
  cases hlist : random.toList with
  | nil =>
    rw [hlist] at hlength
    cases hlength
  | cons b rest =>
    rw [hlist] at hlength
    have hbyte := positive_byte b.toNat b.toNat_lt
    rw [UInt8.ofNat_toNat] at hbyte
    have hne : (b &&& 0x7F) ||| 1 ≠ 0xFF := fun h => absurd (h ▸ hbyte.2) (by decide)
    refine ⟨?_, by simpa using hlength⟩
    cases rest with
    | nil => rfl
    | cons c rest => simp [isMinimalInteger, hbyte.1, hne]

section

variable {tier : Tier} {key issuerKey : X509.KeyInfo}

theorem extensionsFor_readable : ∀ x ∈ extensionsFor tier key issuerKey, x.oid.Readable := by
  have hoid : ∀ n ∈ [14, 35, 19, 15], (extensionOid n).Readable := by decide
  have hmem : ∀ x ∈ extensionsFor tier key issuerKey, x.oid ∈ [14, 35, 19, 15].map extensionOid := by
    cases tier <;> simp [extensionsFor, subjectKeyExtension, issuerKeyExtension, authorityExtension, usageExtension,
      keyUsageOid, extensionOid]
  intro x hx
  obtain ⟨n, hn, hxn⟩ := List.mem_map.mp (hmem x hx)
  exact hxn ▸ hoid n hn

/-- The uses that are stated are those of the tier. -/
theorem usages?_extensionsFor {s : Statement} (h : s.extensions = some (extensionsFor tier key issuerKey)) :
    s.usages? = some (tierUsages tier) := by
  have hfind : (extensionsFor tier key issuerKey).find? (·.oid == keyUsageOid) = some (usageExtension (tierUsages tier)) := by
    cases tier <;> rfl
  rw [Statement.usages?, h, Option.getD_some, hfind]
  cases tier <;> decide

end

/-! ## Issuing -/

theorem nameOf_eq_ok_iff {text : String} {n : Name} : nameOf text = .ok n ↔ Name.ofText? text = some n := by
  rw [nameOf]
  cases Name.ofText? text <;> simp

theorem dateOf_eq_ok_iff {i : Instant} {t : Timestamp} : dateOf i = .ok t ↔ Timestamp.ofInstant i = .ok t := by
  rw [dateOf]
  cases Timestamp.ofInstant i with
  | error reason => exact iff_of_false nofun nofun
  | ok t => exact ⟨fun h => congrArg _ (Except.ok.inj h), fun h => congrArg _ (Except.ok.inj h)⟩

namespace IssueRequest

/-- What is stated with the names and the validity. -/
def stated (r : IssueRequest) (issuerKey : Rsa.PublicKey) (random : Vector UInt8 16) (subject issuer : Name)
    (validity : Validity) : Statement where
  version := 2
  serial := serialOf random
  algorithm := .plain Digest.Kind.sha384.signatureOid
  issuer := issuer
  validity := validity
  subject := subject
  key := .ofRsa r.key
  issuerId := none
  subjectId := none
  extensions := some (extensionsFor r.tier (.ofRsa r.key) (.ofRsa issuerKey))

/-- The name that a certificate is issued in: for a root its own. -/
def issuerText (r : IssueRequest) : String := if r.tier = .root then r.subject else r.issuer

/-- A document is what was requested, signed with the key of the issuer. -/
structure Issued (r : IssueRequest) (issuerKey : Rsa.PrivateKey) (random : Vector UInt8 16) (d : Document) : Prop where
  subject : Name.ofText? r.subject = some d.statement.subject
  issuer : Name.ofText? r.issuerText = some d.statement.issuer
  notBefore : Timestamp.ofInstant r.notBefore = .ok d.statement.validity.notBefore
  notAfter : Timestamp.ofInstant r.notAfter = .ok d.statement.validity.notAfter
  statement : d.statement = r.stated issuerKey.publicKey random d.statement.subject d.statement.issuer d.statement.validity
  algorithm : d.algorithm = .plain Digest.Kind.sha384.signatureOid
  signature : ∃ signature, Rsa.sign? issuerKey .sha384 d.statement.toElement.encode = some signature ∧
    d.signature = .ofBytes signature
  length : d.encode.length ≤ maxLength

variable {r : IssueRequest} {issuerKey : Rsa.PrivateKey} {random : Vector UInt8 16} {d : Document} {text : String}

/-- Both names are read from their texts: for a root a second time would give the same. -/
theorem statement_eq (r : IssueRequest) (key : Rsa.PublicKey) (random : Vector UInt8 16) :
    r.statement key random = (do
      let subject ← nameOf r.subject
      let issuer ← nameOf r.issuerText
      let notBefore ← dateOf r.notBefore
      let notAfter ← dateOf r.notAfter
      return r.stated key random subject issuer ⟨notBefore, notAfter⟩) := by
  rw [statement, issuerText]
  by_cases htier : r.tier = .root
  · simp only [if_pos htier]
    cases nameOf r.subject <;> rfl
  · simp only [if_neg htier]
    rfl

theorem statement_eq_ok {s : Statement} {key : Rsa.PublicKey} (h : r.statement key random = .ok s) :
    Name.ofText? r.subject = some s.subject ∧ Name.ofText? r.issuerText = some s.issuer ∧
      Timestamp.ofInstant r.notBefore = .ok s.validity.notBefore ∧
      Timestamp.ofInstant r.notAfter = .ok s.validity.notAfter ∧
      s = r.stated key random s.subject s.issuer s.validity := by
  rw [statement_eq] at h
  obtain ⟨subject, hsubject, h⟩ := Except.bind_eq_ok_iff.mp h
  obtain ⟨issuer, hissuer, h⟩ := Except.bind_eq_ok_iff.mp h
  obtain ⟨notBefore, hnotBefore, h⟩ := Except.bind_eq_ok_iff.mp h
  obtain ⟨notAfter, hnotAfter, h⟩ := Except.bind_eq_ok_iff.mp h
  cases h
  exact ⟨nameOf_eq_ok_iff.mp hsubject, nameOf_eq_ok_iff.mp hissuer, dateOf_eq_ok_iff.mp hnotBefore,
    dateOf_eq_ok_iff.mp hnotAfter, rfl⟩

theorem issue_eq_ok (h : r.issue issuerKey random = .ok d) : r.statement issuerKey.publicKey random = .ok d.statement ∧
    d.algorithm = d.statement.algorithm ∧
    ∃ signature, Rsa.sign? issuerKey .sha384 d.statement.toElement.encode = some signature ∧
      d.signature = .ofBytes signature := by
  obtain ⟨statement, hstatement, h⟩ := Except.bind_eq_ok_iff.mp h
  simp only at h
  split at h
  · cases h
  · cases hsign : Rsa.sign? issuerKey .sha384 statement.toElement.encode with
    | none =>
      rw [hsign] at h
      cases h
    | some signature =>
      rw [hsign] at h
      cases h
      exact ⟨hstatement, rfl, signature, hsign, rfl⟩

/-- What is issued is written unless it is too long. -/
theorem issueText_eq_ok_iff : r.issueText issuerKey random = .ok text ↔
    ∃ d, r.issue issuerKey random = .ok d ∧ d.encode.length ≤ maxLength ∧ text = Text.ofAscii (Certificate.pemBytes d) := by
  rw [issueText, Except.bind_eq_ok_iff]
  refine exists_congr fun d => and_congr_right fun _ => ?_
  by_cases hlong : maxLength < d.encode.length
  · rw [if_pos hlong]
    exact iff_of_false nofun fun h => Nat.not_lt.mpr h.1 hlong
  · rw [if_neg hlong]
    exact ⟨fun h => ⟨Nat.not_lt.mp hlong, (Except.ok.inj h).symm⟩, fun h => congrArg _ h.2.symm⟩

theorem issued_of_issue (hissue : r.issue issuerKey random = .ok d) (hlength : d.encode.length ≤ maxLength) :
    r.Issued issuerKey random d := by
  obtain ⟨hstatement, halgorithm, hsignature⟩ := issue_eq_ok hissue
  obtain ⟨hsubject, hissuer, hnotBefore, hnotAfter, hstated⟩ := statement_eq_ok hstatement
  refine ⟨hsubject, hissuer, hnotBefore, hnotAfter, hstated, ?_, hsignature, hlength⟩
  rw [halgorithm, hstated]
  rfl

/-- What there is when a text was issued. -/
theorem issueText_eq_ok (h : r.issueText issuerKey random = .ok text) :
    ∃ d, r.Issued issuerKey random d ∧ text = Text.ofAscii (Certificate.pemBytes d) := by
  obtain ⟨d, hissue, hlength, htext⟩ := issueText_eq_ok_iff.mp h
  exact ⟨d, issued_of_issue hissue hlength, htext⟩

namespace Issued

/-- The names of a document have types that are read from their encoding. -/
def TypesReadable (d : Document) : Prop :=
  (∀ o ∈ d.statement.issuer.types, o.Readable) ∧ ∀ o ∈ d.statement.subject.types, o.Readable

/-- Where the types of the names are read, all of the document is. -/
theorem readable (h : r.Issued issuerKey random d) (htypes : TypesReadable d) : d.Readable := by
  have halgorithm : (AlgorithmId.plain Digest.Kind.sha384.signatureOid).Readable :=
    AlgorithmId.readable_plain (by decide)
  have hissuer := (Name.readable_iff (Name.hasKnownValues_of_ofText? h.issuer)).mpr htypes.1
  have hsubject := (Name.readable_iff (Name.hasKnownValues_of_ofText? h.subject)).mpr htypes.2
  have hvalidity : d.statement.validity.Readable :=
    ⟨(Timestamp.ofInstant_eq_ok h.notBefore).1, (Timestamp.ofInstant_eq_ok h.notAfter).1⟩
  have hserial := serialOf_spec random
  obtain ⟨signature, -, hsignature⟩ := h.signature
  refine ⟨?_, h.algorithm ▸ halgorithm, hsignature ▸ BitString.valid_ofBytes _⟩
  rw [h.statement]
  exact {
    version := Nat.le_refl _
    serial := hserial.1
    serialLength := Nat.le_trans (Nat.le_of_eq hserial.2) (by decide)
    algorithm := halgorithm
    issuer := hissuer
    validity := hvalidity
    subject := hsubject
    key := KeyInfo.readable_ofRsa _
    issuerId := nofun
    subjectId := nofun
    extensions := fun xs hxs => by
      cases hxs
      exact extensionsFor_readable }

theorem key_eq (h : r.Issued issuerKey random d) : d.statement.key = .ofRsa r.key := by rw [h.statement]; rfl

theorem length_key (h : r.Issued issuerKey random d) : (KeyInfo.ofRsa r.key).toElement.content.length ≤ maxLength :=
  h.key_eq ▸ Statement.length_key (Document.length_statement h.length)

/-- The document is accepted with the key, the dates and the uses that were requested. -/
theorem accepted (h : r.Issued issuerKey random d) (htypes : TypesReadable d) (hsound : r.key.isSound = true)
    (hbits : r.key.bits ≤ KeyInfo.maxBits) :
    Certificate.ofText (Text.ofAscii (Certificate.pemBytes d)) = .ok ⟨d, r.key, tierUsages r.tier⟩ := by
  have hextensions : d.statement.extensions = some (extensionsFor r.tier (.ofRsa r.key) (.ofRsa issuerKey.publicKey)) := by
    rw [h.statement]
    rfl
  rw [Certificate.ofText_pemBytes (h.readable htypes) h.length, Certificate.ofDocument, h.key_eq,
    KeyInfo.rsa?_ofRsa hsound hbits h.length_key, usages?_extensionsFor hextensions]
  rfl

/-- What is read from its encoding has names of such types. -/
theorem typesReadable_of_decode? {d' : Document} (h : r.Issued issuerKey random d)
    (hread : Document.decode? d.encode = some d') : TypesReadable d := by
  have hissuer := Name.hasKnownValues_of_ofText? h.issuer
  have hsubject := Name.hasKnownValues_of_ofText? h.subject
  obtain ⟨hissuer', hsubject'⟩ := Document.names_readable_of_decode? h.length hissuer hsubject hread
  exact ⟨(Name.readable_iff hissuer).mp hissuer', (Name.readable_iff hsubject).mp hsubject'⟩

theorem decoded_iff (h : r.Issued issuerKey random d) :
    (∃ d', Document.decode? d.encode = some d') ↔ TypesReadable d := by
  constructor
  · rintro ⟨d', hread⟩
    exact h.typesReadable_of_decode? hread
  · intro htypes
    exact ⟨d, Document.decode?_encode h.length (h.readable htypes)⟩

/-- What is accepted of it was read, and so the types of its names are. -/
theorem typesReadable {c : Certificate} (h : r.Issued issuerKey random d)
    (hc : Certificate.ofText (Text.ofAscii (Certificate.pemBytes d)) = .ok c) : TypesReadable d := by
  obtain ⟨d', hread⟩ := Certificate.decode?_of_ofText hc
  exact h.typesReadable_of_decode? hread

/-- A certificate that is accepted from the text is of the document that was issued. -/
theorem document_eq {c : Certificate} (h : r.Issued issuerKey random d)
    (hc : Certificate.ofText (Text.ofAscii (Certificate.pemBytes d)) = .ok c) : c.document = d := by
  rw [Certificate.ofText_pemBytes (h.readable (h.typesReadable hc)) h.length] at hc
  exact Certificate.document_of_ofDocument hc

/-- For a sound key that is all that is asked for: a document with a longer one, or with a name of another type, is not
accepted. -/
theorem accepted_iff (h : r.Issued issuerKey random d) (hsound : r.key.isSound = true) :
    (∃ c, Certificate.ofText (Text.ofAscii (Certificate.pemBytes d)) = .ok c) ↔
      r.key.bits ≤ KeyInfo.maxBits ∧ TypesReadable d := by
  constructor
  · rintro ⟨c, hc⟩
    have htypes := h.typesReadable hc
    refine ⟨Nat.not_lt.mp fun hbits => ?_, htypes⟩
    rw [Certificate.ofText_pemBytes (h.readable htypes) h.length, Certificate.ofDocument, h.key_eq,
      KeyInfo.rsa?_ofRsa_of_lt hbits h.length_key] at hc
    cases hc
  · rintro ⟨hbits, htypes⟩
    exact ⟨_, h.accepted htypes hsound hbits⟩

/-- The dates are those that were requested, without their parts of a second. -/
theorem dates (h : r.Issued issuerKey random d) :
    d.statement.validity.notBefore.instant = .ofSeconds r.notBefore.seconds ∧
      d.statement.validity.notAfter.instant = .ofSeconds r.notAfter.seconds :=
  ⟨(Timestamp.ofInstant_eq_ok h.notBefore).2, (Timestamp.ofInstant_eq_ok h.notAfter).2⟩

/-- The signature verifies under the key of the issuer. -/
theorem verifiesUnder {key : Rsa.PublicKey} {usages : List KeyUsage} (h : r.Issued issuerKey random d) :
    (⟨d, key, usages⟩ : Certificate).VerifiesUnder issuerKey.publicKey := by
  obtain ⟨signature, hsign, hsignature⟩ := h.signature
  refine ⟨.sha384, signature, ?_, ?_, Rsa.verify_sign hsign⟩
  · rw [h.algorithm]
    decide
  · rw [hsignature, BitString.octets?_ofBytes]

end Issued

end IssueRequest

end PolicySeal
