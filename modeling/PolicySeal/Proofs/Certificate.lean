import PolicySeal.Certificate
import PolicySeal.Proofs.Json.Shape
import PolicySeal.Proofs.Pem
import PolicySeal.Proofs.X509.Document
/-
  PolicySeal.Proofs.Certificate — certificates are read from the text they are written to.

  The text is plain ASCII with one end of a line after it, which is trimmed. What is left is one
  piece for each document that was written, and each piece is decoded to the encoding of its
  document (`Certificate.documents?_flatMap`). Of a single document that encoding is read as the
  document, and whether it is accepted as a certificate is a matter of its key and its extensions
  alone (`Certificate.ofText_pemBytes`). However a certificate was read, its document was decoded
  (`Certificate.Read.decoded`).
-/

namespace PolicySeal

open X509

namespace Certificate

/-- Where each piece of a text is some bytes, what is made of the pieces is made of those. -/
theorem mapM_bind_of_mapM {α β γ : Type} {f : α → Option β} {g : β → Option γ} {l : List α} {l' : List β}
    (h : l.mapM f = some l') : (l.mapM fun a => (f a).bind g) = l'.mapM g := by
  induction l generalizing l' with
  | nil =>
    cases h
    rfl
  | cons a l ih =>
    rw [List.mapM_cons] at h
    obtain ⟨b, hb, h⟩ := Option.bind_eq_some_iff.mp h
    obtain ⟨rest, hrest, h⟩ := Option.bind_eq_some_iff.mp h
    cases h
    rw [List.mapM_cons, List.mapM_cons, hb, ih hrest, Option.bind_some]

/-- What is made of all members of a list. -/
theorem exists_mapM_iff {α β : Type} {f : α → Option β} {l : List α} :
    (∃ l', l.mapM f = some l') ↔ ∀ a ∈ l, ∃ b, f a = some b := by
  induction l with
  | nil => exact iff_of_true ⟨[], rfl⟩ nofun
  | cons a l ih =>
    rw [List.forall_mem_cons, ← ih, List.mapM_cons]
    constructor
    · rintro ⟨l', h⟩
      obtain ⟨b, hb, h⟩ := Option.bind_eq_some_iff.mp h
      obtain ⟨rest, hrest, -⟩ := Option.bind_eq_some_iff.mp h
      exact ⟨⟨b, hb⟩, rest, hrest⟩
    · rintro ⟨⟨b, hb⟩, rest, hrest⟩
      exact ⟨b :: rest, by rw [hb, hrest]; rfl⟩

/-! ## The text of documents -/

theorem flatMap_pemBytes (ds : List Document) :
    ds.flatMap pemBytes = (ds.map Document.encode).flatMap (Pem.encode label) := by
  rw [List.flatMap_map]
  rfl

/-- The contents of a text of documents are their encodings. -/
theorem contents_flatMap (d : Document) (ds : List Document) :
    ((Pem.splitAfter label (Text.utf8 (Text.trim (Text.ofAscii ((d :: ds).flatMap pemBytes))))).bind fun pieces =>
      pieces.mapM (Pem.decode? label)) = some ((d :: ds).map Document.encode) := by
  have hne : ∀ c ∈ (d :: ds).map Document.encode, c ≠ [] := by
    intro c hc
    obtain ⟨d, -, rfl⟩ := List.mem_map.mp hc
    exact List.cons_ne_nil _ _
  rw [flatMap_pemBytes, List.map_cons, Pem.utf8_trim_encode (by decide), Pem.splitAfter_pieces (by decide), Option.bind_some,
    Pem.mapM_decode?_pieces label hne]

/-- What is read of it are the documents, if each is read from its encoding. -/
theorem documents?_flatMap (d : Document) (ds : List Document) :
    documents? (Text.utf8 (Text.trim (Text.ofAscii ((d :: ds).flatMap pemBytes))))
      = (d :: ds).mapM fun d => Document.decode? d.encode := by
  obtain ⟨pieces, hpieces, hcontents⟩ := Option.bind_eq_some_iff.mp (contents_flatMap d ds)
  have hread : (pieces.mapM fun piece => (Pem.decode? label piece).bind Document.decode?)
      = ((d :: ds).map Document.encode).mapM Document.decode? := mapM_bind_of_mapM hcontents
  rw [documents?, hpieces, Option.bind_eq_bind, Option.bind_some]
  refine Eq.trans hread ?_
  simp only [List.mapM_map, Function.comp_def]

theorem documents?_pemBytes (d : Document) :
    documents? (Text.utf8 (Text.trim (Text.ofAscii (pemBytes d)))) = (Document.decode? d.encode).map fun d => [d] := by
  have hone := documents?_flatMap d []
  rw [List.flatMap_singleton] at hone
  rw [hone, List.mapM_cons, List.mapM_nil]
  cases Document.decode? d.encode <;> rfl

/-- A text of documents is read as the first one is alone, where the others are read at all. -/
theorem ofText_flatMap_eq_ok_iff {d : Document} {ds : List Document} {c : Certificate} :
    ofText (Text.ofAscii ((d :: ds).flatMap pemBytes)) = .ok c ↔
      ofText (Text.ofAscii (pemBytes d)) = .ok c ∧ ∀ other ∈ ds, ∃ d', Document.decode? other.encode = some d' := by
  rw [← exists_mapM_iff, ofText, ofText, ofTextAt, ofTextAt, documents?_flatMap, documents?_pemBytes, List.mapM_cons]
  cases Document.decode? d.encode with
  | none => simp
  | some first =>
    cases ds.mapM fun d => Document.decode? d.encode with
    | none => simp
    | some others => simp

/-- A document that is read from its encoding is judged for what it is. -/
theorem ofText_pemBytes {d : Document} (h : d.Readable) (hlength : d.encode.length ≤ Der.maxLength) :
    ofText (Text.ofAscii (pemBytes d)) = ofDocument inlineOrigin d := by
  rw [ofText, ofTextAt, documents?_pemBytes, Document.decode?_encode hlength h, Option.map_some]

/-- What is accepted was read from its encoding. -/
theorem decode?_of_ofText {d : Document} {c : Certificate} (h : ofText (Text.ofAscii (pemBytes d)) = .ok c) :
    ∃ d', Document.decode? d.encode = some d' := by
  rw [ofText, ofTextAt, documents?_pemBytes] at h
  cases hread : Document.decode? d.encode with
  | none =>
    rw [hread] at h
    cases h
  | some d' => exact ⟨d', rfl⟩

/-! ## Certificates that were read -/

/-- Accepted from a text or from bytes. -/
inductive Read (c : Certificate) : Prop
  | ofText (origin : Path) (text : String) : ofTextAt origin text = .ok c → Read c
  | ofBytes (bs : Bytes) : Certificate.ofBytes bs = .ok c → Read c

/-- A document is accepted for its key and its usages. -/
theorem ofDocument_eq_ok_iff {origin : Path} {d : Document} {c : Certificate} : ofDocument origin d = .ok c ↔
    ∃ key usages, d.statement.key.rsa? = .ok key ∧ d.statement.usages? = some usages ∧ c = ⟨d, key, usages⟩ := by
  rw [ofDocument]
  cases d.statement.key.rsa? with
  | error reason => simp [Except.mapError, bind, Except.bind]
  | ok key =>
    cases d.statement.usages? with
    | none => simp [Except.mapError, bind, Except.bind, throw, throwThe, MonadExceptOf.throw]
    | some usages => simp [Except.mapError, bind, Except.bind, pure, Except.pure, eq_comm]

theorem document_of_ofDocument {origin : Path} {d : Document} {c : Certificate} (h : ofDocument origin d = .ok c) :
    c.document = d := by
  obtain ⟨key, usages, -, -, rfl⟩ := ofDocument_eq_ok_iff.mp h
  rfl

/-- Each document of a text was decoded. -/
theorem decoded_of_mem_documents? {text : Bytes} {ds : List Document} (h : documents? text = some ds) {d : Document}
    (hd : d ∈ ds) : ∃ bs, Document.decode? bs = some d := by
  rw [documents?] at h
  obtain ⟨pieces, -, hpieces⟩ := Option.bind_eq_some_iff.mp h
  obtain ⟨piece, -, hpiece⟩ := mem_of_mapM_eq_some hpieces hd
  obtain ⟨bs, -, hdecode⟩ := Option.bind_eq_some_iff.mp hpiece
  exact ⟨bs, hdecode⟩

/-- What was read is a document that was decoded, and accepted under some path. -/
theorem Read.accepted {c : Certificate} (h : c.Read) :
    ∃ bs origin, Document.decode? bs = some c.document ∧ ofDocument origin c.document = .ok c := by
  cases h with
  | ofText origin text h =>
    rw [ofTextAt] at h
    split at h
    · cases h
    · cases h
    · rename_i d ds hdocuments
      obtain ⟨bs, hdecode⟩ := decoded_of_mem_documents? hdocuments List.mem_cons_self
      obtain rfl := document_of_ofDocument h
      exact ⟨bs, origin, hdecode, h⟩
  | ofBytes bs h =>
    rw [Certificate.ofBytes] at h
    split at h
    · cases h
    · rename_i d hdecode
      obtain rfl := document_of_ofDocument h
      exact ⟨bs, inlineOrigin, hdecode, h⟩

theorem Read.decoded {c : Certificate} (h : c.Read) : ∃ bs, Document.decode? bs = some c.document := by
  obtain ⟨bs, _, hdecode, -⟩ := h.accepted
  exact ⟨bs, hdecode⟩

/-- A document that is accepted is so under every path. -/
theorem Read.ofDocument_eq {c : Certificate} (h : c.Read) (origin : Path) : ofDocument origin c.document = .ok c := by
  obtain ⟨_, _, -, haccepted⟩ := h.accepted
  exact ofDocument_eq_ok_iff.mpr (ofDocument_eq_ok_iff.mp haccepted)

end Certificate

end PolicySeal
