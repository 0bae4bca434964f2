import PolicySeal.Issuing.Hierarchy
import PolicySeal.Proofs.Binding.Identity
import PolicySeal.Proofs.Issuing.Request
/-
  PolicySeal.Proofs.Issuing.Hierarchy — three certificates issued one below the other are a chain.

  A root is issued by itself, an intermediate certificate under the name and the key of the root,
  a signing certificate under those of the intermediate one. Where all three can be issued they
  are accepted as requested, their names link, and at every time that lies in the dates of all of
  them the validation finds no error, whatever the tolerance (`issued_hierarchy_validates`).

  Not everything that can be issued can be read: a key may be too long, and the type of an
  attribute may have an identifier that is refused (`issued_unread`).
-/

namespace PolicySeal

open Der Time Trust X509

/-- Whom a certificate of a hierarchy is issued to: the name, the key with the chance for the serial number, and the
time that the certificate is to be valid for. -/
structure Holder where
  subject : String
  material : KeyMaterial
  notBefore : Instant
  notAfter : Instant

namespace Holder

def publicKey (h : Holder) : Rsa.PublicKey := h.material.key.publicKey

/-- The certificate has the key, the dates to the second and the uses that were requested. -/
structure Certified (h : Holder) (tier : Tier) (c : Certificate) : Prop where
  key : c.key = h.publicKey
  validFrom : c.validFrom = .ofSeconds h.notBefore.seconds
  validTo : c.validTo = .ofSeconds h.notAfter.seconds
  usages : c.usages = tierUsages tier

/-- The request for the certificate of a tier, under the name of the tier above it. -/
def request (holders : Tier → Holder) (tier : Tier) : IssueRequest where
  tier := tier
  subject := (holders tier).subject
  issuer := (holders tier.issuer).subject
  key := (holders tier).publicKey
  notBefore := (holders tier).notBefore
  notAfter := (holders tier).notAfter

/-- The text of the certificate of a tier, signed with the key of the tier above it. -/
def issuedText (holders : Tier → Holder) (tier : Tier) : Except Fault String :=
  (request holders tier).issueText (holders tier.issuer).material.key (holders tier).material.random

variable {holders : Tier → Holder} {tier : Tier} {text : String}

theorem publicKey_isSound {h : Holder} (hsound : h.material.key.isSound = true) : h.publicKey.isSound = true := by
  simp only [Rsa.PrivateKey.isSound, Bool.and_eq_true] at hsound
  exact hsound.1.1.1

/-- For a root, too, the issuer is the tier above: its own. -/
theorem issuerText_request : (request holders tier).issuerText = (holders tier.issuer).subject := by
  cases tier <;> rfl

/-- A certificate of the hierarchy: it is accepted, it is as requested, has the names of its own tier and of the one
above, and verifies under the key of that. -/
theorem issuedText_accepted (hsound : (holders tier).publicKey.isSound = true)
    (hbits : (holders tier).publicKey.bits ≤ KeyInfo.maxBits)
    (htypes : ∀ t name, Name.ofText? (holders t).subject = some name → ∀ o ∈ name.types, o.Readable)
    (h : issuedText holders tier = .ok text) :
    ∃ c, Certificate.ofText text = .ok c ∧ (holders tier).Certified tier c ∧
      Name.ofText? (holders tier).subject = some c.document.statement.subject ∧
      Name.ofText? (holders tier.issuer).subject = some c.document.statement.issuer ∧
      c.VerifiesUnder (holders tier.issuer).publicKey := by
  obtain ⟨d, hissued, rfl⟩ := IssueRequest.issueText_eq_ok h
  have hissuer : Name.ofText? (holders tier.issuer).subject = some d.statement.issuer := by
    rw [← issuerText_request]
    exact hissued.issuer
  have haccepted := hissued.accepted ⟨htypes _ _ hissuer, htypes _ _ hissued.subject⟩ hsound hbits
  exact ⟨_, haccepted, ⟨rfl, hissued.dates.1, hissued.dates.2, rfl⟩, hissued.subject, hissuer, hissued.verifiesUnder⟩

/-! ## The chain -/

/-- Names that match are not warned of. -/
theorem no_otherIssuer {h : Hierarchy} {now : Instant} {skew : Span} {v : Validation} (hv : v.Exact h now skew)
    (hnames : ∀ t, (h.certificate t).issuer = (h.certificate t.issuer).subject) (t : Tier) (issuer : String) (above : Tier)
    (subject : String) : ChainWarning.otherIssuer t issuer above subject ∉ v.warnings := by
  intro hmem
  obtain ⟨f, hf, hwarning⟩ := List.mem_filterMap.mp hmem
  cases f with
  | error e => cases hwarning
  | warning w =>
    cases hwarning
    cases (hv.reported _).mp hf with
    | dates _ hdates => cases hdates
    | names _ _ hother => exact hother (hnames t)

/-- Let three holders have sound key pairs of at most 4096 bits and names whose attribute types can be read from their
encoding, and let the certificates of all three be issued: that of the root by itself, each other under the name and the
key of the tier above. Then each text is accepted as a certificate with the requested key, the requested dates without
their parts of a second and the uses of its tier, and its issuer is named as the subject of the tier above. At every time
within the dates of all three, with every tolerance that is not negative and moves no date out of the calendar, the
validation of the chain finds no error and no names that do not match. -/
theorem issued_hierarchy_validates (holders : Tier → Holder) (texts : Tier → String)
    (hsound : ∀ tier, (holders tier).material.key.isSound = true)
    (hbits : ∀ tier, (holders tier).publicKey.bits ≤ KeyInfo.maxBits)
    (htypes : ∀ tier name, Name.ofText? (holders tier).subject = some name → ∀ o ∈ name.types, o.Readable)
    (hissued : ∀ tier, issuedText holders tier = .ok (texts tier)) :
    ∃ h : Hierarchy,
      (∀ tier, Certificate.ofText (texts tier) = .ok (h.certificate tier) ∧
        (holders tier).Certified tier (h.certificate tier) ∧
        (h.certificate tier).issuer = (h.certificate tier.issuer).subject) ∧
      ∀ now skew, (∀ tier, (h.certificate tier).isValidAt now = true) → 0 ≤ skew.millis →
        (∀ tier, ((h.certificate tier).validFrom.sub? skew).isSome ∧ ((h.certificate tier).validTo.add? skew).isSome) →
        ∃ v, validate? h now skew = some v ∧ v.errors = [] ∧
          ∀ tier issuer above subject, ChainWarning.otherIssuer tier issuer above subject ∉ v.warnings := by
  choose c haccepted hcertified hsubject hissuer hverifies using
    fun tier => issuedText_accepted (publicKey_isSound (hsound tier)) (hbits tier) htypes (hissued tier)
  let h : Hierarchy := ⟨c .root, c .intermediate, c .signing⟩
  have hc : ∀ tier, h.certificate tier = c tier := fun tier => by cases tier <;> rfl
  have hnames : ∀ tier, (h.certificate tier).issuer = (h.certificate tier.issuer).subject := by
    intro tier
    have hname := Option.some.inj ((hissuer tier).symm.trans (hsubject tier.issuer))
    rw [hc, hc, Certificate.issuer, Certificate.subject, hname]
  refine ⟨h, fun tier => ⟨hc tier ▸ haccepted tier, hc tier ▸ hcertified tier, hnames tier⟩, ?_⟩
  intro now skew hvalid hskew hrange
  obtain ⟨v, hv, hexact⟩ := validate?_exact h now hskew hrange
  have hlinked : ∀ tier, (h.certificate tier).VerifiesUnder (h.certificate tier.issuer).key := by
    intro tier
    rw [hc, hc, (hcertified tier.issuer).key]
    exact hverifies tier
  have htolerated : ∀ tier, Tolerated (h.certificate tier) now skew := by
    intro tier
    obtain ⟨hfrom, hto⟩ := isValidAt_iff.mp (hvalid tier)
    exact ⟨by omega, by omega⟩
  have herrors : v.errors = [] := List.isEmpty_iff.mp (hexact.valid.mpr ⟨htolerated, hlinked⟩)
  exact ⟨v, hv, herrors, no_otherIssuer hexact hnames⟩

/-! ## A hierarchy of short keys -/

/-- Three holders with the same key, whose certificates are valid from 2025 to 2050. -/
def nodeHolders (tier : Tier) : Holder where
  subject :=
    match tier with
    | .root => "CN=Root,O=Node"
    | .intermediate => "CN=Intermediate,O=Node"
    | .signing => "CN=Signing,O=Node"
  material := ⟨Service.nodeKey, Vector.replicate 16 0⟩
  notBefore := ⟨1735689600250⟩
  notAfter := ⟨2556143999750⟩

theorem exists_of_isOk {α : Type} {x : Except Fault α} (h : isOk x = true) : ∃ a, x = .ok a := by
  cases x with
  | error _ => cases h
  | ok a => exact ⟨a, rfl⟩

theorem nodeHolders_issued (tier : Tier) : ∃ text, issuedText nodeHolders tier = .ok text := by
  refine exists_of_isOk ?_
  cases tier <;> decide +kernel

theorem nodeHolders_types (tier : Tier) (name : Name) (h : Name.ofText? (nodeHolders tier).subject = some name) :
    ∀ o ∈ name.types, o.Readable := by
  have hall : ((Name.ofText? (nodeHolders tier).subject).all fun n => n.types.all fun o => decide o.Readable) = true := by
    cases tier <;> decide +kernel
  rw [h, Option.all_some, List.all_eq_true] at hall
  exact fun o ho => of_decide_eq_true (hall o ho)

/-- The certificates are valid from the start of the second that was asked for. -/
theorem nodeHolders_validate : ∃ (texts : Tier → String) (h : Hierarchy),
    (∀ tier, issuedText nodeHolders tier = .ok (texts tier)) ∧
    (∀ tier, Certificate.ofText (texts tier) = .ok (h.certificate tier)) ∧
    ∃ v, validate? h ⟨1735689600000⟩ (.ofMinutes 5) = some v ∧ v.errors = [] := by
  choose texts hissued using nodeHolders_issued
  have hsound : ∀ tier, (nodeHolders tier).material.key.isSound = true := fun tier => by cases tier <;> decide +kernel
  have hbits : ∀ tier, (nodeHolders tier).publicKey.bits ≤ KeyInfo.maxBits := fun tier => by cases tier <;> decide +kernel
  obtain ⟨h, hcertificates, hvalid⟩ := issued_hierarchy_validates nodeHolders texts hsound hbits nodeHolders_types hissued
  have hfrom : ∀ tier, (h.certificate tier).validFrom = ⟨1735689600000⟩ := fun tier => (hcertificates tier).2.1.validFrom
  have hto : ∀ tier, (h.certificate tier).validTo = ⟨2556143999000⟩ := fun tier => (hcertificates tier).2.1.validTo
  obtain ⟨v, hv, herrors, -⟩ := hvalid ⟨1735689600000⟩ (.ofMinutes 5)
    (fun tier => by rw [Certificate.isValidAt, hfrom, hto]; decide) (by decide)
    (fun tier => by rw [hfrom, hto]; decide +kernel)
  exact ⟨texts, h, hissued, fun tier => (hcertificates tier).1, v, hv, herrors⟩

/-! ## Certificates that are issued and not read -/

/-- A key of 4104 bits, from two primes just below a power of two. -/
def longKey : Rsa.PrivateKey :=
  let p := Nat.pow 2 2052 - 395
  let q := Nat.pow 2 2052 - 3635
  { modulus := p * q, exponent := 3, secret := (2 * ((p - 1) * (q - 1)) + 1) / 3, firstPrime := p, secondPrime := q }

/-- The signing certificate is for the long key. -/
def longKeyHolders (tier : Tier) : Holder :=
  if tier = .signing then { nodeHolders tier with material := ⟨longKey, Vector.replicate 16 0⟩ } else nodeHolders tier

/-- The name of the root has an attribute whose type has three arcs, in two bytes. -/
def shortTypeHolders (tier : Tier) : Holder :=
  if tier = .root then { nodeHolders tier with subject := "1.2.3=Node" } else nodeHolders tier

/-- All three holders have sound key pairs, and their certificates are issued, but that of the tier is not accepted. -/
structure Unread (holders : Tier → Holder) (tier : Tier) : Prop where
  sound : ∀ t, (holders t).material.key.isSound = true
  issued : ∀ t, ∃ text, issuedText holders t = .ok text
  refused : ∀ text c, issuedText holders tier = .ok text → Certificate.ofText text ≠ .ok c

/-- What is issued for a sound key is not accepted where the key is too long or a type in the name is refused. -/
theorem unread_of (hsound : ∀ t, (holders t).material.key.isSound = true)
    (hissued : ∀ t, ∃ text, issuedText holders t = .ok text)
    (hnot : (holders tier).publicKey.bits ≤ KeyInfo.maxBits →
      ∀ name, Name.ofText? (holders tier).subject = some name → ¬ ∀ o ∈ name.types, o.Readable) :
    Unread holders tier := by
  refine ⟨hsound, hissued, fun text c htext hc => ?_⟩
  obtain ⟨d, hissued, rfl⟩ := IssueRequest.issueText_eq_ok htext
  obtain ⟨hbits, -, htypes⟩ := (hissued.accepted_iff (publicKey_isSound (hsound tier))).mp ⟨c, hc⟩
  exact hnot hbits _ hissued.subject htypes

/-- A signing key that is too long, and a name with a type that is refused. -/
theorem issued_unread : Unread longKeyHolders .signing ∧ Unread shortTypeHolders .root := by
  constructor
  · have hissued : ∀ t, ∃ text, issuedText longKeyHolders t = .ok text := by
      intro t
      cases t with
      | root => exact nodeHolders_issued .root
      | intermediate => exact nodeHolders_issued .intermediate
      | signing => exact exists_of_isOk (by decide +kernel)
    have hlong : ¬ longKey.publicKey.bits ≤ KeyInfo.maxBits := by decide +kernel
    exact unread_of (fun t => by cases t <;> decide +kernel) hissued fun hbits => absurd hbits hlong
  · have hissued : ∀ t, ∃ text, issuedText shortTypeHolders t = .ok text := by
      intro t
      cases t with
      | root => exact exists_of_isOk (by decide +kernel)
      | intermediate => exact exists_of_isOk (by decide +kernel)
      | signing => exact nodeHolders_issued .signing
    have hrefused : ((Name.ofText? "1.2.3=Node").all fun n => !n.types.all fun o => decide o.Readable) = true := by
      decide +kernel
    refine unread_of (fun t => by cases t <;> decide +kernel) hissued fun _ name hname htypes => ?_
    rw [show Name.ofText? "1.2.3=Node" = _ from hname, Option.all_some, Bool.not_eq_true', ← Bool.not_eq_true,
      List.all_eq_true] at hrefused
    exact hrefused fun o ho => decide_eq_true (htypes o ho)

end Holder

end PolicySeal
