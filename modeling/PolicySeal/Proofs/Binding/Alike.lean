import PolicySeal.Proofs.Binding.Ways
import PolicySeal.Proofs.Config.Environment
import PolicySeal.Proofs.Policy.Agreement
/-
  PolicySeal.Proofs.Binding.Alike — a verdict depends on what is signed, and on the block.

  Of a policy the verifier looks at its signed bytes, and of its block at the algorithm and at
  the value, the value without the white space around it (`Policy.Alike`). Who signed and when,
  the order of the members, how the policy was made and which document it was read from play no
  part: not in a check, not in the text of an error, and not in what is asked of the store. So
  the work of verifying one of two such policies is the work of verifying the other, in whatever
  way it is done (`verifyBy_congr`), and two runs from one store end with the same verdict and
  the same store (`verifyBy_alike`).
-/

namespace PolicySeal

open Trust

/-! ## Texts but for the white space around them -/

namespace Text

/-- The texts have one part in common, and nothing but white space around it. -/
def SameInside (a b : String) : Prop :=
  ∃ core before after before' after' : List Char, a.toList = before ++ core ++ after ∧
    b.toList = before' ++ core ++ after' ∧ ∀ c, c ∈ before ∨ c ∈ after ∨ c ∈ before' ∨ c ∈ after' → isBlank c = true

theorem trim_eq_iff {a b : String} : trim a = trim b ↔ SameInside a b := by
  have hchars : trim a = trim b ↔ trimChars a.toList = trimChars b.toList := by
    rw [trim, trim, ← String.toList_inj, String.toList_ofList, String.toList_ofList]
  rw [hchars]
  constructor
  · intro h
    obtain ⟨before, after, ha, hbefore, hafter⟩ := exists_trimChars a.toList
    obtain ⟨before', after', hb, hbefore', hafter'⟩ := exists_trimChars b.toList
    refine ⟨_, before, after, before', after', ha, by rw [h]; exact hb, ?_⟩
    rintro c (hc | hc | hc | hc)
    · exact hbefore c hc
    · exact hafter c hc
    · exact hbefore' c hc
    · exact hafter' c hc
  · rintro ⟨core, before, after, before', after', ha, hb, hblank⟩
    rw [ha, hb, trimChars_blank_append (fun c hc => hblank c (.inl hc)) (fun c hc => hblank c (.inr (.inl hc))),
      trimChars_blank_append (fun c hc => hblank c (.inr (.inr (.inl hc))))
        (fun c hc => hblank c (.inr (.inr (.inr hc))))]

end Text

theorem decodeSignatureValue_congr {a b : String} (h : Text.SameInside a b) :
    decodeSignatureValue a = decodeSignatureValue b := by
  rw [decodeSignatureValue, decodeSignatureValue, Text.trim_eq_iff.mpr h]

/-! ## What is looked at -/

/-- The blocks name one algorithm and have one value, but for the white space around it. -/
structure SignatureBlock.Alike (a b : SignatureBlock) : Prop where
  algorithm : a.algorithm = b.algorithm
  value : Text.SameInside a.value b.value

/-- The policies have the same signed bytes, and blocks that are alike or none. -/
structure Policy.Alike (p q : Policy) : Prop where
  bytes : p.signedBytes = q.signedBytes
  blocks : Option.Rel SignatureBlock.Alike p.signature q.signature

/-! ## The verifier -/

namespace Service

variable {s : Service} {p q : Policy}

theorem certificateParts_congr (h : p.Alike q) : s.certificateParts p = s.certificateParts q := by
  obtain ⟨-, hblocks⟩ := h
  rw [certificateParts, certificateParts]
  generalize p.signature = a at hblocks
  generalize q.signature = b at hblocks
  cases hblocks with
  | none => rfl
  | some hblock => simp only [hblock.algorithm, decodeSignatureValue_congr hblock.value]

theorem keyVerdict_congr (h : p.Alike q) : keyVerdict p = keyVerdict q := by
  funext hash signature c
  rw [keyVerdict, keyVerdict, Policy.matchesKey, Policy.matchesKey, h.bytes]

theorem verifyUnder_congr (h : p.Alike q) : s.verifyUnder p = s.verifyUnder q := by
  funext hash signature c verifyChain
  rw [verifyUnder, verifyUnder, keyVerdict_congr h]

theorem verifyAtPath_congr (h : p.Alike q) : s.verifyAtPath p = s.verifyAtPath q := by
  funext path verifyChain
  rw [verifyAtPath, verifyAtPath, certificateParts_congr h, verifyUnder_congr h]

theorem verifyWithCertificate_congr (h : p.Alike q) : s.verifyWithCertificate p = s.verifyWithCertificate q := by
  funext text verifyChain
  rw [verifyWithCertificate, verifyWithCertificate, certificateParts_congr h, verifyUnder_congr h]

theorem secretHash_congr {a b : SignatureBlock} (h : a.Alike b) : secretHash a = secretHash b := by
  rw [secretHash, secretHash, h.algorithm]

theorem verifyWithSecret_alike (h : p.Alike q) : verifyWithSecret p = verifyWithSecret q := by
  funext secret
  obtain ⟨hbytes, hblocks⟩ := h
  rw [verifyWithSecret, verifyWithSecret, Policy.matchesSecret_congr hbytes]
  generalize p.signature = a at hblocks
  generalize q.signature = b at hblocks
  cases hblocks with
  | none => rfl
  | some hblock => simp only [secretHash_congr hblock, decodeSignatureValue_congr hblock.value]

theorem verifyOpen_congr (h : p.Alike q) : s.verifyOpen p = s.verifyOpen q := by
  rw [verifyOpen, verifyOpen, verifyWithSecret_alike h]
  unfold verifyConfigured
  rw [verifyAtPath_congr h]

theorem verifyAuto_congr (h : p.Alike q) : s.verifyAuto p = s.verifyAuto q := by
  rw [verifyAuto, verifyAuto, verifyOpen_congr h, verifyWithSecret_alike h]
  unfold verifyConfigured
  rw [verifyAtPath_congr h]
  obtain ⟨-, hblocks⟩ := h
  generalize p.signature = a at hblocks
  generalize q.signature = b at hblocks
  cases hblocks with
  | none => rfl
  | some hblock => simp only [hblock.algorithm]

theorem verifyBy_congr (h : p.Alike q) : s.verifyBy p = s.verifyBy q := by
  funext way
  cases way with
  | auto => exact verifyAuto_congr h
  | default =>
    show s.verifyAtPath p s.paths.signingCert true = s.verifyAtPath q s.paths.signingCert true
    rw [verifyAtPath_congr h]
  | certificate text verifyChain =>
    show s.verifyWithCertificate p text verifyChain = s.verifyWithCertificate q text verifyChain
    rw [verifyWithCertificate_congr h]
  | secret secret =>
    show Work.done (verifyWithSecret p secret) = Work.done (verifyWithSecret q secret)
    rw [verifyWithSecret_alike h]

/-- Policies that are alike get the same verdict in every part of it, in whatever way and with whatever configuration
they are verified, and their verification leaves the same store behind. Each step on the way is the same, so that
this holds whatever others do to the store meanwhile. -/
theorem verifyBy_alike (p q : Policy) (h : p.Alike q) (s : Service) (way : Way) :
    s.verifyBy p way = s.verifyBy q way ∧
      ∀ store, (s.verifyBy p way).run store = (s.verifyBy q way).run store := by
  have hwork : s.verifyBy p way = s.verifyBy q way := congrFun (verifyBy_congr h) way
  exact ⟨hwork, fun store => by rw [hwork]⟩

/-- A value that is no signature, with white space around it, in two names and at two times. -/
def spacedBlock : SignatureBlock := ⟨"hmac", " AAAA\n", "node", "2025-01-01T00:00:00Z"⟩

def tabbedBlock : SignatureBlock := ⟨"hmac", "AAAA\t", "hub", ""⟩

theorem spacedBlock_alike : spacedBlock.Alike tabbedBlock :=
  ⟨rfl, "AAAA".toList, [' '], ['\n'], [], ['\t'], by decide, by decide, by simp [Text.isBlank]⟩

/-- A policy with the one block, and the policy that was read with its members the other way round with the other. -/
theorem reversedPolicy_verified_alike :
    (Policy.unorderedPolicy.withSignature spacedBlock).Alike (Policy.reversedPolicy.withSignature tabbedBlock) ∧
      (sealedNode.verifyBy (Policy.unorderedPolicy.withSignature spacedBlock) .auto).run emptyStore
        = (sealedNode.verifyBy (Policy.reversedPolicy.withSignature tabbedBlock) .auto).run emptyStore := by
  have halike : (Policy.unorderedPolicy.withSignature spacedBlock).Alike
      (Policy.reversedPolicy.withSignature tabbedBlock) := by
    refine ⟨?_, .some spacedBlock_alike⟩
    rw [Policy.signedBytes_withSignature, Policy.signedBytes_withSignature, Policy.signedBytes_reversedPolicy]
  exact ⟨halike, (verifyBy_alike _ _ halike sealedNode .auto).2 emptyStore⟩

end Service

end PolicySeal
