import PolicySeal.Json.Token
/-
  PolicySeal.Proofs.Json.Numeral — numerals, taken apart and scanned.

  A `Spelling` is a numeral by its parts. A valid one is scanned whole, as far as it goes:
  what follows must not begin with a character that goes on a numeral (`Ends`).
-/

namespace PolicySeal.Json

/-- A numeral by its parts; an exponent comes with its sign. -/
structure Spelling where
  negative : Bool
  whole : List Char
  fraction : Option (List Char)
  exponent : Option (Bool × List Char)

/-- One digit or more. -/
def IsDigits (cs : List Char) : Prop := cs ≠ [] ∧ ∀ c ∈ cs, c.isDigit = true

/-- A text that cannot go on a numeral. -/
def Ends (cs : List Char) : Prop := ∀ c ∈ cs.head?, c.isDigit = false ∧ c ≠ '.' ∧ c ≠ 'e' ∧ c ≠ 'E'

namespace Spelling

structure Valid (s : Spelling) : Prop where
  whole : IsDigits s.whole
  /-- A zero in front stands alone. -/
  zero : s.whole.head? = some '0' → s.whole = ['0']
  fraction : ∀ ds ∈ s.fraction, IsDigits ds
  exponent : ∀ e ∈ s.exponent, IsDigits e.2

def signText (s : Spelling) : List Char := if s.negative then ['-'] else []

def fractionText (s : Spelling) : List Char :=
  match s.fraction with
  | none => []
  | some ds => '.' :: ds

def exponentText (s : Spelling) : List Char :=
  match s.exponent with
  | none => []
  | some (negative, ds) => 'e' :: (if negative then '-' else '+') :: ds

def text (s : Spelling) : List Char := s.signText ++ (s.whole ++ (s.fractionText ++ s.exponentText))

end Spelling

/-! ## Runs of digits -/

theorem IsDigits.exists_cons {ds : List Char} (h : IsDigits ds) :
    ∃ c rest, ds = c :: rest ∧ c.isDigit = true ∧ ∀ x ∈ rest, x.isDigit = true := by
  cases ds with
  | nil => exact absurd rfl h.1
  | cons c rest => exact ⟨c, rest, rfl, h.2 c List.mem_cons_self, fun x hx => h.2 x (List.mem_cons_of_mem _ hx)⟩

theorem takeWhile_isDigit {ds rest : List Char} (h : ∀ c ∈ ds, c.isDigit = true)
    (hr : ∀ c ∈ rest.head?, c.isDigit = false) :
    (ds ++ rest).takeWhile Char.isDigit = ds ∧ (ds ++ rest).dropWhile Char.isDigit = rest := by
  rw [List.takeWhile_append_of_pos h, List.dropWhile_append_of_pos h]
  cases rest with
  | nil => simp
  | cons c rest =>
    have hc : c.isDigit = false := hr c rfl
    simp [hc]

theorem scanDigits_append {ds rest : List Char} (h : IsDigits ds) (hr : ∀ c ∈ rest.head?, c.isDigit = false) :
    Token.scanDigits (ds ++ rest) = some (ds, rest) := by
  obtain ⟨ht, hd⟩ := takeWhile_isDigit h.2 hr
  simp [Token.scanDigits, ht, hd, h.1]

/-! ## The parts of a numeral -/

theorem isDigit_ne_minus {c : Char} (h : c.isDigit = true) : c ≠ '-' := by
  rintro rfl
  cases h

theorem Ends.digit {cs : List Char} (h : Ends cs) : ∀ c ∈ cs.head?, c.isDigit = false := fun c hc => (h c hc).1

namespace Spelling

variable {s : Spelling} {rest : List Char}

theorem head_exponentText (h : Ends rest) :
    ∀ c ∈ (s.exponentText ++ rest).head?, c.isDigit = false ∧ c ≠ '.' := by
  intro c hc
  unfold exponentText at hc
  split at hc
  · exact ⟨(h c hc).1, (h c hc).2.1⟩
  · obtain rfl : 'e' = c := by simpa using hc
    decide

theorem head_fractionText (h : Ends rest) :
    ∀ c ∈ (s.fractionText ++ (s.exponentText ++ rest)).head?, c.isDigit = false := by
  intro c hc
  unfold fractionText at hc
  split at hc
  · exact (head_exponentText h c hc).1
  · obtain rfl : '.' = c := by simpa using hc
    decide

theorem scanWhole_append (hs : s.Valid) (h : ∀ c ∈ rest.head?, c.isDigit = false) :
    Token.scanWhole (s.whole ++ rest) = some (s.whole, rest) := by
  rw [Token.scanWhole, scanDigits_append hs.whole h]
  split
  · rename_i c cs _ heq
    have hw : s.whole = '0' :: c :: cs := congrArg Prod.fst (Option.some.inj heq)
    have := hs.zero (by rw [hw]; rfl)
    rw [hw] at this
    simp at this
  · rfl

theorem scanFraction_append (hs : s.Valid) (h : Ends rest) :
    Token.scanFraction (s.fractionText ++ (s.exponentText ++ rest)) = some (s.fractionText, s.exponentText ++ rest) := by
  have hd := head_exponentText (s := s) h
  cases hf : s.fraction with
  | none =>
    have ht : s.fractionText = [] := by rw [fractionText, hf]
    rw [ht, List.nil_append, Token.scanFraction]
    intro after heq
    exact absurd rfl (hd '.' (by rw [heq]; rfl)).2
  | some ds =>
    have ht : s.fractionText = '.' :: ds := by rw [fractionText, hf]
    have hds : IsDigits ds := hs.fraction ds hf
    simp only [ht, List.cons_append, Token.scanFraction, scanDigits_append hds fun c hc => (hd c hc).1, Option.map_some]

theorem scanExponent_append (hs : s.Valid) (h : Ends rest) :
    Token.scanExponent (s.exponentText ++ rest) = some (s.exponentText, rest) := by
  cases he : s.exponent with
  | none =>
    have ht : s.exponentText = [] := by rw [exponentText, he]
    rw [ht, List.nil_append, Token.scanExponent.eq_def]
    cases rest with
    | nil => rfl
    | cons c rest =>
      obtain ⟨_, _, h1, h2⟩ := h c rfl
      simp [h1, h2]
  | some e =>
    obtain ⟨negative, ds⟩ := e
    have hds : IsDigits ds := hs.exponent _ he
    have ht : s.exponentText = 'e' :: (if negative then '-' else '+') :: ds := by rw [exponentText, he]
    obtain ⟨c, cs, rfl, hc, -⟩ := hds.exists_cons
    have hsign : Token.isSign c = false := by
      cases hb : Token.isSign c with
      | false => rfl
      | true =>
        simp only [Token.isSign, Bool.or_eq_true, beq_iff_eq] at hb
        rcases hb with rfl | rfl <;> cases hc
    have hscan : Token.scanDigits (c :: (cs ++ rest)) = some (c :: cs, rest) := scanDigits_append hds h.digit
    have hsigns : ∀ x, Token.isSign x = true → (x :: c :: (cs ++ rest)).takeWhile Token.isSign = [x] := by
      intro x hx
      simp [hx, hsign]
    have hx : Token.isSign (if negative then '-' else '+') = true := by cases negative <;> rfl
    simp [ht, Token.scanExponent, hsigns _ hx, hscan]

/-- A valid numeral is scanned whole. -/
theorem scanNumeral_append (hs : s.Valid) (h : Ends rest) :
    Token.scanNumeral (s.text ++ rest) = some (s.text, rest) := by
  have hsign : (if ((s.text ++ rest).head? == some '-') = true then ['-'] else []) = s.signText := by
    obtain ⟨c, cs, hw, hc, -⟩ := hs.whole.exists_cons
    cases hn : s.negative
    · simp [text, signText, hn, hw, isDigit_ne_minus hc]
    · simp [text, signText, hn]
  have hdrop : (s.text ++ rest).drop s.signText.length
      = s.whole ++ (s.fractionText ++ (s.exponentText ++ rest)) := by
    simp [text]
  simp only [Token.scanNumeral, hsign, hdrop, scanWhole_append hs (head_fractionText h), scanFraction_append hs h,
    scanExponent_append hs h, Option.bind_eq_bind, Option.bind_some, pure]
  simp only [text, List.append_assoc]

/-- The first character tells a numeral from every other token. -/
theorem exists_head (hs : s.Valid) : ∃ c cs, s.text = c :: cs ∧ (c = '-' ∨ c.isDigit = true) := by
  obtain ⟨c, cs, hw, hc, -⟩ := hs.whole.exists_cons
  cases hn : s.negative
  · exact ⟨c, cs ++ (s.fractionText ++ s.exponentText), by simp [text, signText, hn, hw], Or.inr hc⟩
  · exact ⟨'-', s.whole ++ (s.fractionText ++ s.exponentText), by simp [text, signText, hn], Or.inl rfl⟩

end Spelling

end PolicySeal.Json
