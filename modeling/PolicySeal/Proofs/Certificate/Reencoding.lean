import PolicySeal.Proofs.Trust.Tolerance
/-
  PolicySeal.Proofs.Certificate.Reencoding — what was read of a certificate, it is written as.

  A certificate keeps no bytes that it was read from: its fingerprint is that of a new encoding, and
  so are the bytes its signature is checked against. The new encoding may differ from the one that
  was read, where that has a default written out, say, but it is read as the same certificate
  (`reencoding_lossless`), and whatever is said of the one is said of the other.
-/

namespace PolicySeal.Certificate

open Der X509 Trust

/-- From its own encoding and from its own text a certificate that was read is read again. -/
theorem Read.again {c : Certificate} (h : c.Read) :
    c.encode.length ≤ Der.maxLength ∧ Certificate.ofText c.text = .ok c ∧ Certificate.ofBytes c.encode = .ok c := by
  obtain ⟨bs, hdecode⟩ := h.decoded
  obtain ⟨hreadable, hlength, hmax, hagain⟩ := Document.decode?_encode_of_decode? hdecode
  have hshort : c.encode.length ≤ Der.maxLength := Nat.le_trans hlength hmax
  refine ⟨hshort, ?_, ?_⟩
  · rw [text, ofText_pemBytes hreadable hshort, h.ofDocument_eq]
  · rw [Certificate.ofBytes, encode, hagain]
    exact h.ofDocument_eq inlineOrigin

/-- Whatever text a certificate was read from, under whatever path, with white space around it and with any number of
blocks: its encoding is no longer than an encoding may be, so that it can be written, and both the text that it is written
to and the encoding itself are read as that certificate, the same in its names, its serial number, its dates, its uses,
its key and its fingerprint. So under every issuer the one verifies as the other does. -/
theorem reencoding_lossless (origin : Path) (text : String) (c : Certificate) (h : ofTextAt origin text = .ok c) :
    c.encode.length ≤ Der.maxLength ∧ ofText c.text = .ok c ∧ ofBytes c.encode = .ok c ∧
      ∀ again, ofText c.text = .ok again ∨ ofBytes c.encode = .ok again →
        again.encode = c.encode ∧ ∀ issuer, again.issuance issuer = c.issuance issuer := by
  obtain ⟨hlength, htext, hbytes⟩ := (Read.ofText origin text h).again
  refine ⟨hlength, htext, hbytes, fun again hagain => ?_⟩
  obtain rfl : again = c := by
    rcases hagain with hagain | hagain
    · exact Except.ok.inj (hagain.symm.trans htext)
    · exact Except.ok.inj (hagain.symm.trans hbytes)
  exact ⟨rfl, fun _ => rfl⟩

/-- The certificate of the root with its version written out, which is the default. -/
def spelledRoot : Bytes :=
  (Der.sequence [Der.sequence (wrap (Tag.explicitField 0) [natural 0] :: rootDocument.statement.fixedFields),
    rootDocument.algorithm.toElement, rootDocument.signature.toElement]).encode

/-- The text of it, with blank lines before and after. -/
def spelledRootText : String := Text.ofAscii ([Pem.lf, Pem.lf] ++ Pem.encode label spelledRoot ++ [0x20, Pem.lf])

/-- The certificate is read from a text that is not its own. -/
theorem spelledRoot_reencoded : spelledRoot ≠ rootCertificate.encode ∧ ofText spelledRootText = .ok rootCertificate ∧
    ofText rootCertificate.text = .ok rootCertificate ∧ ofBytes rootCertificate.encode = .ok rootCertificate := by
  have hdocuments : documents? (Text.utf8 (Text.trim spelledRootText)) = some [rootDocument] := by
    rw [spelledRootText, Text.utf8, Text.trim, Text.ofAscii, String.toList_ofList, String.toList_ofList]
    decide +kernel
  have hread : ofTextAt inlineOrigin spelledRootText = .ok rootCertificate := by
    rw [ofTextAt, hdocuments]
    exact ofDocument_eq_ok_iff.mpr ⟨rootKey, [], rootKey_read, rfl, rfl⟩
  obtain ⟨-, htext, hbytes, -⟩ := reencoding_lossless inlineOrigin spelledRootText rootCertificate hread
  exact ⟨by decide +kernel, hread, htext, hbytes⟩

end PolicySeal.Certificate
