import PolicySeal.Binding.Verdict
import PolicySeal.Proofs.Json.Record
/-
  PolicySeal.Proofs.Binding.Audit — verdicts are read back from audits as they were written.

  What a verdict is written with are fields that its reader knows, each once and in their order
  (`Verdict.keys_members`); those that are left out because there is nothing to write are read as
  nothing. The names of the statuses, the mechanisms, the failures and the uses are distinct, so each
  is told by its name, however it is spelled. With certificates the dates have to be such as a clock
  shows; then a verdict is read back from its JSON whole (`Verdict.audit_roundtrip`).
-/

namespace PolicySeal

open Json Draft

/-! ## What is told of a certificate -/

namespace CertificateInfo

/-- Both dates are readings of a clock. -/
structure Dated (i : CertificateInfo) : Prop where
  validFrom : i.validFrom.Valid
  validTo : i.validTo.Valid

def members (i : CertificateInfo) : Members :=
  [("subject", .string i.subject), ("issuer", .string i.issuer), ("serialNumber", .string i.serialNumber),
    ("validFrom", .string i.validFrom.text), ("validTo", .string i.validTo.text),
    ("keyUsage", strings (i.keyUsage.map KeyUsage.name)), ("fingerprintSha256", .string i.fingerprint)]

theorem toJson_eq (i : CertificateInfo) : i.toJson = .object i.members := rfl

theorem nodup_fields : (fields.map Field.name).Nodup := by decide

theorem distinct_members (i : CertificateInfo) : Members.Distinct i.members := nodup_fields

theorem reads_keyUsages (usages : List KeyUsage) : Reads keyUsages (strings (usages.map KeyUsage.name)) usages := by
  rw [strings, List.map_map]
  refine reads_list fun u _ => reads_variant (by decide) ?_
  cases u <;> decide

theorem reads_toJson {i : CertificateInfo} (h : i.Dated) : Reads ofDraft i.toJson i := by
  have hfrom := reads_time h.validFrom
  have hto := reads_time h.validTo
  have huses := reads_keyUsages i.keyUsage
  have hknown : ∀ m ∈ i.members, Known fields m := by
    simp only [members, List.forall_mem_cons]
    exact ⟨(reads_string _).known rfl, (reads_string _).known rfl, (reads_string _).known rfl, hfrom.known rfl,
      hto.known rfl, huses.known rfl, (reads_string _).known rfl, fun _ h => nomatch h⟩
  have hsubject : (drafts i.members).required "subject" string = .ok i.subject :=
    Slots.required_of_reads rfl (reads_string _)
  have hissuer : (drafts i.members).required "issuer" string = .ok i.issuer :=
    Slots.required_of_reads rfl (reads_string _)
  have hserial : (drafts i.members).required "serialNumber" string = .ok i.serialNumber :=
    Slots.required_of_reads rfl (reads_string _)
  have hvalidFrom : (drafts i.members).required "validFrom" time = .ok i.validFrom := Slots.required_of_reads rfl hfrom
  have hvalidTo : (drafts i.members).required "validTo" time = .ok i.validTo := Slots.required_of_reads rfl hto
  have hkeyUsage : (drafts i.members).required "keyUsage" keyUsages = .ok i.keyUsage := Slots.required_of_reads rfl huses
  have hfingerprint : (drafts i.members).required "fingerprintSha256" string = .ok i.fingerprint :=
    Slots.required_of_reads rfl (reads_string _)
  rw [Reads, toJson_eq, ofDraft, record_known i.distinct_members hknown]
  simp only [bind, Except.bind, hsubject, hissuer, hserial, hvalidFrom, hvalidTo, hkeyUsage, hfingerprint]
  rfl

end CertificateInfo

/-! ## Verdicts -/

namespace Verdict

/-- The warnings, if there are any. -/
def someWarnings (v : Verdict) : Option (List String) := if v.warnings.isEmpty then none else some v.warnings

def members (v : Verdict) : Members :=
  [("valid", .bool v.valid), ("status", .string v.status.name), ("signatureType", .string v.mechanism.name)]
    ++ member "error" .string v.error
    ++ member "failure" (fun f => .string f.name) v.failure
    ++ member "certificateInfo" CertificateInfo.toJson v.certificate
    ++ member "warnings" strings v.someWarnings

theorem toJson_eq (v : Verdict) : v.toJson = .object v.members := by
  rw [toJson, members, someWarnings]
  split <;> rfl

theorem reads_status (s : Status) : Reads statuses (.string s.name) s :=
  reads_variant (by decide) (by cases s <;> decide)

theorem reads_mechanism (m : Mechanism) : Reads mechanisms (.string m.name) m :=
  reads_variant (by decide) (by cases m <;> decide)

theorem reads_failure (f : Failure) : Reads failures (.string f.name) f :=
  reads_variant (by decide) (by cases f <;> decide)

theorem reads_warnings (ws : List String) : Reads (Draft.list Draft.string) (strings ws) ws :=
  reads_list fun w _ => reads_string w

/-! ### The members -/

theorem get?_member {α : Type} (name key : String) (toJson : α → Json) (x : Option α) :
    Members.get? (member name toJson x) key = if name = key then x.map toJson else none := by
  cases x <;> simp [member, Members.get?]

theorem forall_member {α : Type} {p : String × Json → Prop} {name : String} {toJson : α → Json} {x : Option α} :
    (∀ m ∈ member name toJson x, p m) ↔ ∀ a ∈ x, p (name, toJson a) := by
  cases x <;> simp [member]

theorem keys_member_sublist {α : Type} (name : String) (toJson : α → Json) (x : Option α) :
    (Members.keys (member name toJson x)).Sublist [name] := by
  cases x <;> simp [member]

/-- The members come in the order of the fields. -/
theorem keys_members (v : Verdict) : (Members.keys v.members).Sublist (fields.map Field.name) := by
  simp only [members, Members.keys_append]
  exact ((((List.Sublist.refl _).append (keys_member_sublist ..)).append (keys_member_sublist ..)).append
    (keys_member_sublist ..)).append (keys_member_sublist ..)

theorem distinct_members (v : Verdict) : Members.Distinct v.members := v.keys_members.nodup (by decide)

/-- Each optional member is found where it is there. -/
theorem get?_members (v : Verdict) :
    Members.get? v.members "error" = v.error.map .string ∧
      Members.get? v.members "failure" = v.failure.map (fun f => .string f.name) ∧
      Members.get? v.members "certificateInfo" = v.certificate.map CertificateInfo.toJson ∧
      Members.get? v.members "warnings" = v.someWarnings.map strings := by
  simp [members, Members.get?_append, get?_member, Members.get?]

section

variable {v : Verdict} (h : ∀ i ∈ v.certificate, i.Dated)

include h

theorem known_members : ∀ m ∈ v.members, Known fields m := by
  simp only [members, List.forall_mem_append, forall_member, List.forall_mem_cons]
  refine ⟨⟨⟨⟨⟨(reads_bool _).known rfl, (reads_status _).known rfl, (reads_mechanism _).known rfl, fun _ h => nomatch h⟩,
    fun e _ => ?_⟩, fun f _ => ?_⟩, fun i hi => ?_⟩, fun ws _ => (reads_warnings ws).known rfl⟩
  · exact ((reads_string e).optional nofun).known rfl
  · exact ((reads_failure f).optional nofun).known rfl
  · exact ((CertificateInfo.reads_toJson (h i hi)).optional nofun).known rfl

theorem reads_toJson : Reads ofDraft v.toJson v := by
  obtain ⟨hgetError, hgetFailure, hgetCertificate, hgetWarnings⟩ := v.get?_members
  have hvalid : (drafts v.members).required "valid" bool = .ok v.valid := Slots.required_of_reads rfl (reads_bool _)
  have hstatus : (drafts v.members).required "status" statuses = .ok v.status :=
    Slots.required_of_reads rfl (reads_status _)
  have hmechanism : (drafts v.members).required "signatureType" mechanisms = .ok v.mechanism :=
    Slots.required_of_reads rfl (reads_mechanism _)
  have herror : (drafts v.members).orElse "error" (optional string) none = .ok v.error :=
    Slots.orElse_optional hgetError (fun e _ => reads_string e) nofun
  have hfailure : (drafts v.members).orElse "failure" (optional failures) none = .ok v.failure :=
    Slots.orElse_optional hgetFailure (fun f _ => reads_failure f) nofun
  have hcertificate : (drafts v.members).orElse "certificateInfo" (optional CertificateInfo.ofDraft) none = .ok v.certificate :=
    Slots.orElse_optional hgetCertificate (fun i hi => CertificateInfo.reads_toJson (h i hi)) nofun
  have hwarnings : (drafts v.members).orElse "warnings" (Draft.list string) [] = .ok v.warnings := by
    by_cases hempty : v.warnings.isEmpty = true
    · rw [someWarnings, if_pos hempty] at hgetWarnings
      rw [List.isEmpty_iff.mp hempty]
      exact Slots.orElse_of_missing hgetWarnings
    · rw [someWarnings, if_neg hempty] at hgetWarnings
      exact Slots.orElse_of_reads hgetWarnings (reads_warnings v.warnings)
  rw [Reads, toJson_eq, ofDraft, record_known v.distinct_members (known_members h)]
  simp only [bind, Except.bind, hvalid, hstatus, hmechanism, herror, hfailure, hcertificate, hwarnings]
  rfl

end

/-- A verdict with any status, mechanism, failure, texts and warnings, and with any dates of a clock if it comes with a
certificate, is read back from the JSON that it is written to, compact or pretty, as it was. So what is read back was
checked for tampering if the verdict was, and not otherwise. -/
theorem audit_roundtrip (v : Verdict) (h : ∀ i ∈ v.certificate, i.validFrom.Valid ∧ i.validTo.Valid) :
    ofText (compact v.toJson) = .ok v ∧ ofText (pretty v.toJson) = .ok v ∧
      ∀ w, ofText (compact v.toJson) = .ok w ∨ ofText (pretty v.toJson) = .ok w →
        w.isTamperChecked = v.isTamperChecked := by
  obtain ⟨hcompact, hpretty⟩ := (reads_toJson fun i hi => ⟨(h i hi).1, (h i hi).2⟩ : Reads ofDraft v.toJson v).readText
  refine ⟨hcompact, hpretty, ?_⟩
  rintro w (hw | hw)
  · rw [Except.ok.inj (hcompact.symm.trans hw)]
  · rw [Except.ok.inj (hpretty.symm.trans hw)]

/-- A verdict with every part there is: the certificate was valid from the first second of the year 0 to the last one of
the year 9999. -/
def fullVerdict : Verdict where
  valid := false
  status := .failed
  mechanism := .x509
  error := some "chain \"a\\b\"\n broken"
  failure := some .chainValidation
  certificate := some
    { subject := "CN=Root", issuer := "CN=Root", serialNumber := "01"
      validFrom := ⟨⟨0, 1, 1⟩, 0, 0, 0, 0⟩, validTo := ⟨⟨9999, 12, 31⟩, 23, 59, 59, 0⟩
      keyUsage := [.keyCertSign, .crlSign], fingerprint := "00" }
  warnings := ["", "signing: expires in 3 days"]

theorem fullVerdict_read_back : (∀ i ∈ fullVerdict.certificate, i.validFrom.Valid ∧ i.validTo.Valid) ∧
    ofText (compact fullVerdict.toJson) = .ok fullVerdict ∧ ofText (pretty fullVerdict.toJson) = .ok fullVerdict := by
  have hdates : ∀ i ∈ fullVerdict.certificate, i.validFrom.Valid ∧ i.validTo.Valid := by
    intro i hi
    cases hi
    decide
  obtain ⟨hcompact, hpretty, -⟩ := audit_roundtrip fullVerdict hdates
  exact ⟨hdates, hcompact, hpretty⟩

end Verdict

end PolicySeal
