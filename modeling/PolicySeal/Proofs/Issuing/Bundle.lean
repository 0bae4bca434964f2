import PolicySeal.Proofs.Certificate.Reencoding
import PolicySeal.Proofs.Issuing.Hierarchy
/-
  PolicySeal.Proofs.Issuing.Bundle — the certificates of a hierarchy in one text.

  The text of a certificate ends with one end of a line. White space after it is trimmed with that,
  and the line is ended again (`Carries.bundled_eq`), so the chain is the texts of the three
  documents one after the other. In such a text each document is a block of lines of its own, and
  there are no others (`blocks_flatMap`). The chain is read as the signing certificate is alone,
  where the other two are read at all (`chainText_reads_as_leaf`).

  That they are does not go without saying: what was issued need not be read, and one such
  certificate of a root spoils the chain of a signing certificate (`chainText_unread`).
-/

namespace PolicySeal

open Trust X509

namespace Certificate

/-! ## Texts of one certificate -/

/-- The text is one that a certificate is written to: when it is issued, or after it was read. -/
inductive TextOf (d : Document) (text : String) : Prop
  | issued (r : IssueRequest) (issuerKey : Rsa.PrivateKey) (random : Vector UInt8 16) :
      r.issue issuerKey random = .ok d → r.issueText issuerKey random = .ok text → TextOf d text
  | kept (c : Certificate) : c.Read → c.document = d → c.text = text → TextOf d text

/-- There is such a text, and nothing but white space after it. -/
def Carries (s : String) (d : Document) : Prop :=
  ∃ text blanks, TextOf d text ∧ s = text ++ blanks ∧ Text.isBlankText blanks = true

variable {d : Document} {s text : String} {c : Certificate}

theorem TextOf.text_eq (h : TextOf d text) : text = Text.ofAscii (pemBytes d) := by
  cases h with
  | issued r issuerKey random hissue htext =>
    obtain ⟨d', hissue', -, htext⟩ := IssueRequest.issueText_eq_ok_iff.mp htext
    obtain rfl := Except.ok.inj (hissue.symm.trans hissue')
    exact htext
  | kept c _ hdocument htext => rw [← htext, ← hdocument, Certificate.text]

/-- What is accepted from the text is a certificate with the document, and each that can be read is. -/
theorem TextOf.ofText_iff (h : TextOf d text) : ofText text = .ok c ↔ c.Read ∧ c.document = d := by
  constructor
  · intro hc
    refine ⟨.ofText _ _ hc, ?_⟩
    cases h with
    | issued r issuerKey random hissue htext =>
      obtain ⟨d', hissue', hlength, rfl⟩ := IssueRequest.issueText_eq_ok_iff.mp htext
      obtain rfl := Except.ok.inj (hissue.symm.trans hissue')
      exact (IssueRequest.issued_of_issue hissue hlength).document_eq hc
    | kept kept hread hdocument htext =>
      obtain rfl := Except.ok.inj (hc.symm.trans (htext ▸ hread.again.2.1))
      exact hdocument
  · rintro ⟨hread, hdocument⟩
    rw [h.text_eq, ← hdocument]
    exact hread.again.2.1

/-- White space after a text makes no difference to what is read. -/
theorem Carries.ofText_eq (h : Carries s d) : ofText s = ofText (Text.ofAscii (pemBytes d)) := by
  obtain ⟨text, blanks, htext, rfl, hblanks⟩ := h
  have hwraps : Text.Wraps (text ++ blanks) text :=
    ⟨[], blanks.toList, String.toList_append, nofun, List.all_eq_true.mp hblanks⟩
  rw [ofText, ofText, ofTextAt, ofTextAt, hwraps.trim_eq, htext.text_eq]

theorem Carries.ofText_iff (h : Carries s d) : ofText s = .ok c ↔ c.Read ∧ c.document = d := by
  have hs := h.ofText_eq
  obtain ⟨text, -, htext, -⟩ := h
  rw [hs, ← htext.text_eq, htext.ofText_iff]

/-- White space after a text is replaced by the end of its last line. -/
theorem Carries.bundled_eq (h : Carries s d) : IssuedHierarchy.bundled s = Text.ofAscii (pemBytes d) := by
  obtain ⟨text, blanks, htext, rfl, hblanks⟩ := h
  obtain ⟨middle, hmiddle⟩ := Pem.text_dashes label d.encode
  have hpem : pemBytes d = 0x2D :: middle ++ [0x2D] ++ [Pem.lf] := by rw [pemBytes, Pem.encode_eq, hmiddle]
  have hends : ∀ c ∈ (Text.ofAscii [Pem.lf]).toList ++ blanks.toList, Text.isBlank c = true := by
    have hlf : Text.isBlankText (Text.ofAscii [Pem.lf]) = true := by decide
    exact List.forall_mem_append.mpr ⟨List.all_eq_true.mp hlf, List.all_eq_true.mp hblanks⟩
  have htrim : Text.trimEnd (text ++ blanks) = Text.ofAscii (0x2D :: middle ++ [0x2D]) := by
    rw [Text.trimEnd, String.toList_append, htext.text_eq, hpem, Text.ofAscii_append, String.toList_append,
      List.append_assoc, Text.trimEndChars_append hends, Text.ofAscii, String.toList_ofList, List.map_append, List.map_singleton,
      Text.trimEndChars_concat (by decide)]
  rw [IssuedHierarchy.bundled, htrim, hpem, Text.ofAscii_append (0x2D :: middle ++ [0x2D])]
  rfl

/-! ## Texts of several -/

/-- The text is of these documents: their encodings are in it in this order, and a block starts for each of them, at the
start of the text or behind the end of a line, and nowhere else. -/
structure Blocks (text : String) (ds : List Document) : Prop where
  text_eq : text = Text.ofAscii (ds.flatMap pemBytes)
  contents : ((Pem.splitAfter label (Text.utf8 (Text.trim text))).bind fun pieces => pieces.mapM (Pem.decode? label))
    = some (ds.map Document.encode)
  starts (front : Bytes) : Pem.StandsBehind Pem.beginMark (Text.utf8 text) front ↔
    ∃ before after, ds = before ++ after ∧ after ≠ [] ∧ front = before.flatMap pemBytes
  ownLine (front : Bytes) : Pem.StandsBehind Pem.beginMark (Text.utf8 text) front →
    front = [] ∨ ∃ lines, front = lines ++ [Pem.lf]

theorem blocks_flatMap (d : Document) (ds : List Document) :
    Blocks (Text.ofAscii ((d :: ds).flatMap pemBytes)) (d :: ds) := by
  have hutf8 : Text.utf8 (Text.ofAscii ((d :: ds).flatMap pemBytes))
      = ((d :: ds).map Document.encode).flatMap (Pem.encode label) := by
    rw [flatMap_pemBytes, Base64.utf8_ofAscii (Pem.isAscii_flatMap_encode (by decide) _)]
  have hstarts : ∀ front, Pem.StandsBehind Pem.beginMark (Text.utf8 (Text.ofAscii ((d :: ds).flatMap pemBytes))) front ↔
      ∃ before after, d :: ds = before ++ after ∧ after ≠ [] ∧ front = before.flatMap pemBytes := by
    intro front
    rw [hutf8, Pem.beginMark_iff (by decide) (by decide)]
    constructor
    · rintro ⟨before, after, hmap, hafter, rfl⟩
      obtain ⟨before, after, hds, rfl, rfl⟩ := List.map_eq_append_iff.mp hmap
      exact ⟨before, after, hds, fun h => hafter (h ▸ rfl), (flatMap_pemBytes before).symm⟩
    · rintro ⟨before, after, hds, hafter, rfl⟩
      exact ⟨_, _, hds ▸ List.map_append, fun h => hafter (List.map_eq_nil_iff.mp h), flatMap_pemBytes before⟩
  refine ⟨rfl, contents_flatMap d ds, hstarts, fun front hfront => ?_⟩
  obtain ⟨before, -, -, -, rfl⟩ := (hstarts front).mp hfront
  rcases before with _ | ⟨first, before⟩
  · exact .inl rfl
  · exact .inr ⟨_, by rw [flatMap_pemBytes, List.map_cons, Pem.flatMap_encode]⟩

end Certificate

open Certificate

namespace IssuedHierarchy

/-! ## The chain -/

def certificateOf (h : IssuedHierarchy) : Tier → String
  | .root => h.root.certificate
  | .intermediate => h.intermediate.certificate
  | .signing => h.signing.certificate

theorem chainText_eq {h : IssuedHierarchy} {d : Tier → Document}
    (hcarries : ∀ tier, Carries (h.certificateOf tier) (d tier)) :
    h.chainText = Text.ofAscii ([d .signing, d .intermediate, d .root].flatMap pemBytes) := by
  have hsigning := (hcarries .signing).bundled_eq
  have hintermediate := (hcarries .intermediate).bundled_eq
  have hroot := (hcarries .root).bundled_eq
  simp only [certificateOf] at hsigning hintermediate hroot
  rw [chainText, hsigning, hintermediate, hroot, ← Text.ofAscii_append, ← Text.ofAscii_append]
  simp

/-- Let the three texts of a hierarchy be such as certificates are issued in, or written to after they were read, with
any white space after each. Then the chain is the blocks of the three documents in the order signing, intermediate, root.
What is read of a text is a certificate with its document, and what is read of the chain is what is read of the signing
text, where the other two documents are decoded from their encodings. So where each text is accepted, the chain is
accepted as the certificate with the document of the signing one. -/
theorem chainText_reads_as_leaf (h : IssuedHierarchy) (d : Tier → Document)
    (hcarries : ∀ tier, Carries (h.certificateOf tier) (d tier)) :
    Blocks h.chainText [d .signing, d .intermediate, d .root] ∧
      (∀ tier c, ofText (h.certificateOf tier) = .ok c ↔ c.Read ∧ c.document = d tier) ∧
      (∀ c, ofText h.chainText = .ok c ↔ ofText h.signing.certificate = .ok c ∧
        ∀ other ∈ [d .intermediate, d .root], ∃ d', Document.decode? other.encode = some d') ∧
      ((∀ tier, ∃ c, ofText (h.certificateOf tier) = .ok c) →
        ∃ c, ofText h.chainText = .ok c ∧ c.document = d .signing) := by
  have hread : ∀ tier c, ofText (h.certificateOf tier) = .ok c ↔ c.Read ∧ c.document = d tier :=
    fun tier c => (hcarries tier).ofText_iff
  have hchain : ∀ c, ofText h.chainText = .ok c ↔ ofText h.signing.certificate = .ok c ∧
      ∀ other ∈ [d .intermediate, d .root], ∃ d', Document.decode? other.encode = some d' := by
    intro c
    rw [chainText_eq hcarries, ofText_flatMap_eq_ok_iff, ← (hcarries .signing).ofText_eq]
    rfl
  refine ⟨chainText_eq hcarries ▸ blocks_flatMap _ _, hread, hchain, fun haccepted => ?_⟩
  have hdecoded : ∀ tier, ∃ d', Document.decode? (d tier).encode = some d' := by
    intro tier
    obtain ⟨c, hc⟩ := haccepted tier
    exact decode?_of_ofText ((hcarries tier).ofText_eq ▸ hc)
  obtain ⟨c, hc⟩ := haccepted .signing
  refine ⟨c, (hchain c).mpr ⟨hc, ?_⟩, ((hread .signing c).mp hc).2⟩
  simp [hdecoded]

/-- Three texts, without the keys. -/
def ofTexts (texts : Tier → String) : IssuedHierarchy :=
  let identity (tier : Tier) : IssuedIdentity := { subject := tier.name, certificate := texts tier, privateKey := "" }
  ⟨identity .root, identity .intermediate, identity .signing⟩

@[simp] theorem certificateOf_ofTexts (texts : Tier → String) (tier : Tier) :
    (ofTexts texts).certificateOf tier = texts tier := by
  cases tier <;> rfl

/-- Certificates that were read, with white space after two of them. -/
def keptTexts : Tier → String
  | .root => rootCertificate.text ++ "\n \t"
  | .intermediate => rootCertificate.text
  | .signing => lastingCertificate.text ++ "\n\n"

def keptDocuments : Tier → Document
  | .signing => lastingCertificate.document
  | _ => rootCertificate.document

theorem keptTexts_chain : ∃ c, ofText (ofTexts keptTexts).chainText = .ok c ∧ c.document = lastingCertificate.document := by
  have hroot : TextOf rootCertificate.document rootCertificate.text := .kept _ read_rootCertificate rfl rfl
  have hlasting : TextOf lastingCertificate.document lastingCertificate.text := .kept _ read_lastingCertificate rfl rfl
  have hcarries : ∀ tier, Carries ((ofTexts keptTexts).certificateOf tier) (keptDocuments tier) := by
    intro tier
    rw [certificateOf_ofTexts]
    cases tier with
    | root => exact ⟨_, _, hroot, rfl, by decide⟩
    | intermediate => exact ⟨_, "", hroot, String.append_empty.symm, rfl⟩
    | signing => exact ⟨_, _, hlasting, rfl, by decide⟩
  obtain ⟨-, hread, -, haccepted⟩ := chainText_reads_as_leaf (ofTexts keptTexts) keptDocuments hcarries
  refine haccepted fun tier => ?_
  cases tier with
  | root => exact ⟨_, (hread .root _).mpr ⟨read_rootCertificate, rfl⟩⟩
  | intermediate => exact ⟨_, (hread .intermediate _).mpr ⟨read_rootCertificate, rfl⟩⟩
  | signing => exact ⟨_, (hread .signing _).mpr ⟨read_lastingCertificate, rfl⟩⟩

/-! ## A root that is not read -/

/-- The holders of a chain whose root alone has a name with an attribute type that is refused. -/
def oddRootHolders (tier : Tier) : Tier → Holder :=
  if tier = .root then Holder.shortTypeHolders else Holder.nodeHolders

theorem oddRootHolders_issued (tier : Tier) : ∃ text, Holder.issuedText (oddRootHolders tier) tier = .ok text := by
  cases tier with
  | root => exact Holder.exists_of_isOk (by decide +kernel)
  | intermediate => exact Holder.nodeHolders_issued .intermediate
  | signing => exact Holder.nodeHolders_issued .signing

theorem shortType_refused {name : Name} (h : Name.ofText? "1.2.3=Node" = some name) : ¬ ∀ o ∈ name.types, o.Readable := by
  have hrefused : ((Name.ofText? "1.2.3=Node").all fun n => !n.types.all fun o => decide o.Readable) = true := by
    decide +kernel
  rw [h, Option.all_some, Bool.not_eq_true', ← Bool.not_eq_true, List.all_eq_true] at hrefused
  exact fun htypes => hrefused fun o ho => decide_eq_true (htypes o ho)

/-- All three texts are as they were issued, and the signing one is accepted, but the chain is not. -/
theorem chainText_unread : ∃ (texts : Tier → String) (d : Tier → Document),
    (∀ tier, Holder.issuedText (oddRootHolders tier) tier = .ok (texts tier)) ∧
      (∀ tier, Carries ((ofTexts texts).certificateOf tier) (d tier)) ∧
      (∃ c, ofText (ofTexts texts).signing.certificate = .ok c) ∧
      ∀ c, ofText (ofTexts texts).chainText ≠ .ok c := by
  choose texts htexts using oddRootHolders_issued
  choose d hissue hlength htext using fun tier => IssueRequest.issueText_eq_ok_iff.mp (htexts tier)
  have hcarries : ∀ tier, Carries ((ofTexts texts).certificateOf tier) (d tier) := by
    intro tier
    rw [certificateOf_ofTexts]
    exact ⟨_, "", .issued _ _ _ (hissue tier) (htexts tier), String.append_empty.symm, rfl⟩
  have hissued := fun tier => IssueRequest.issued_of_issue (hissue tier) (hlength tier)
  refine ⟨texts, d, htexts, hcarries, ?_, fun c hc => ?_⟩
  · have hissuer := Holder.nodeHolders_types .intermediate _ (hissued .signing).issuer
    have hsubject := Holder.nodeHolders_types .signing _ (hissued .signing).subject
    have haccepted := (hissued .signing).accepted_iff (by decide +kernel)
    obtain ⟨c, hc⟩ := haccepted.mpr ⟨by decide +kernel, hissuer, hsubject⟩
    exact ⟨c, (congrArg ofText (htext .signing)).trans hc⟩
  · rw [chainText_eq hcarries, ofText_flatMap_eq_ok_iff] at hc
    have hdecoded := hc.2 (d .root) (by simp)
    exact shortType_refused (hissued .root).subject ((hissued .root).decoded_iff.mp hdecoded).2

end IssuedHierarchy

end PolicySeal
