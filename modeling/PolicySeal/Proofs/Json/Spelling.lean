import PolicySeal.Json.Printer
import PolicySeal.Proofs.Json.NumberText
import PolicySeal.Proofs.Json.Tree
/-
  PolicySeal.Proofs.Json.Spelling — the tokens of written texts.

  A text spells some tokens when it is their texts in a row, with blanks anywhere in between
  and nothing that goes on a numeral behind one (`Spelled`). Whatever spells some tokens is
  cut into them again (`ofText_of_spelled`), and both forms the printer has of a value spell
  the tokens of the value (`spelled_compact`, `spelled_pretty`).
-/

namespace PolicySeal.Json

namespace Token

/-! ## Strings -/

theorem hexUnit?_control : ∀ n < 32, hexUnit? '0' '0' (hexDigit (n / 16)) (hexDigit (n % 16)) = some n := by decide

theorem ofUnit_control {c : Char} (h : c.toNat < 0x20) : Piece.ofUnit c.toNat = .char c := by
  have hhigh : isHighSurrogate c.toNat = false := by
    simp only [isHighSurrogate, Bool.and_eq_false_iff, decide_eq_false_iff_not]
    omega
  have hlow : isLowSurrogate c.toNat = false := by
    simp only [isLowSurrogate, Bool.and_eq_false_iff, decide_eq_false_iff_not]
    omega
  simp [Piece.ofUnit, hhigh, hlow]

/-- Every character is scanned as itself, escaped or not. -/
theorem scanString_escaped (c : Char) (rest : List Char) :
    scanString (escaped c ++ rest) = (scanString rest).map fun (ps, after) => (.char c :: ps, after) := by
  unfold escaped
  repeat' split
  any_goals
    subst c
    rfl
  · rename_i hcontrol
    simp only [List.cons_append, List.nil_append, scanString, hexUnit?_control _ hcontrol, ofUnit_control hcontrol]
  · rename_i hquote hslash _ _ _ _ _ hcontrol
    rw [List.cons_append, List.nil_append, scanString.eq_def]
    simp_all

theorem scanString_quoted (s rest : List Char) :
    scanString (s.flatMap escaped ++ '"' :: rest) = some (s.map .char, rest) := by
  induction s with
  | nil => rfl
  | cons c s ih => simp only [List.flatMap_cons, List.append_assoc, scanString_escaped, ih, Option.map_some, List.map_cons]

theorem joinHalves_chars (s : List Char) : joinHalves (s.map .char) = some s := by
  induction s with
  | nil => rfl
  | cons c s ih => simp [joinHalves, ih]

theorem ofPieces_chars (s : String) : ofPieces (s.toList.map .char) = string s := by
  simp [ofPieces, joinHalves_chars]

/-! ## Written texts -/

/-- A token that a printer may write. -/
def Written : Token → Prop
  | numeral spelling => ∃ s : Spelling, s.Valid ∧ s.text = spelling
  | halfPair => False
  | stray => False
  | _ => True

/-- The texts of the tokens in a row, with blanks anywhere in between. -/
inductive Spelled : List Token → List Char → Prop
  | nil : Spelled [] []
  | blank {ts : List Token} {c : Char} {cs : List Char} : isBlank c = true → Spelled ts cs → Spelled ts (c :: cs)
  | token {t : Token} {ts : List Token} {cs : List Char} :
    t.Written → (∀ spelling, t = numeral spelling → Ends cs) → Spelled ts cs → Spelled (t :: ts) (t.text ++ cs)

theorem scan_numeral {s : Spelling} (hs : s.Valid) {rest : List Char} (h : Ends rest) :
    ∃ c cs, s.text = c :: cs ∧ isBlank c = false ∧ scan c (cs ++ rest) = some (numeral s.text, rest) := by
  obtain ⟨c, cs, ht, hc⟩ := Spelling.exists_head hs
  refine ⟨c, cs, ht, ?_, ?_⟩
  · rcases hc with rfl | hc
    · rfl
    · simp only [isBlank, Bool.or_eq_false_iff, beq_eq_false_iff_ne]
      refine ⟨⟨⟨?_, ?_⟩, ?_⟩, ?_⟩ <;> (rintro rfl; cases hc)
  · have hscan : scanNumeral (c :: (cs ++ rest)) = some (s.text, rest) := by
      rw [← List.cons_append, ← ht]
      exact Spelling.scanNumeral_append hs h
    unfold scan
    split
    any_goals
      rcases hc with hc | hc <;> cases hc
    rw [if_pos hc, hscan]
    rfl

/-- The scanner takes a written token off the head of a text. -/
theorem scan_text {t : Token} (ht : t.Written) {rest : List Char} (h : ∀ spelling, t = numeral spelling → Ends rest) :
    ∃ c cs, t.text = c :: cs ∧ isBlank c = false ∧ scan c (cs ++ rest) = some (t, rest) := by
  cases t with
  | halfPair => cases ht
  | stray => cases ht
  | numeral spelling =>
    obtain ⟨s, hs, rfl⟩ := ht
    exact scan_numeral hs (h _ rfl)
  | string value =>
    refine ⟨'"', value.toList.flatMap escaped ++ ['"'], rfl, rfl, ?_⟩
    have hscan := scanString_quoted value.toList rest
    rw [List.append_assoc, List.singleton_append]
    simp only [scan, hscan, Option.map_some, ofPieces_chars]
  | bool value => cases value <;> exact ⟨_, _, rfl, rfl, rfl⟩
  | _ => exact ⟨_, _, rfl, rfl, rfl⟩

theorem ofTextWithin_spelled {ts : List Token} {cs : List Char} (h : Spelled ts cs) {fuel : Nat}
    (hf : cs.length ≤ fuel) : ofTextWithin fuel cs = ts := by
  induction h generalizing fuel with
  | nil => cases fuel <;> rfl
  | blank hc _ ih =>
    cases fuel with
    | zero => simp at hf
    | succ fuel =>
      rw [ofTextWithin, if_pos hc]
      exact ih (by simpa using hf)
  | token ht he _ ih =>
    obtain ⟨c, tail, hhead, hc, hscan⟩ := scan_text ht he
    rw [hhead] at hf ⊢
    cases fuel with
    | zero => simp at hf
    | succ fuel =>
      rw [List.cons_append, ofTextWithin, if_neg (by simp [hc]), hscan]
      simp only [List.cons_append, List.length_cons, List.length_append] at hf
      simp only
      rw [ih (by omega)]

/-- A text that spells some tokens is cut into them. -/
theorem ofText_of_spelled {ts : List Token} {cs : List Char} (h : Spelled ts cs) : ofText cs = ts :=
  ofTextWithin_spelled h (Nat.le_refl _)

theorem Spelled.blanks {ts : List Token} {blanks cs : List Char} (hb : ∀ c ∈ blanks, isBlank c = true)
    (h : Spelled ts cs) : Spelled ts (blanks ++ cs) := by
  induction blanks with
  | nil => exact h
  | cons c blanks ih =>
    exact .blank (hb c List.mem_cons_self) (ih fun x hx => hb x (List.mem_cons_of_mem _ hx))

theorem ends_cons {c : Char} (h : c.isDigit = false ∧ c ≠ '.' ∧ c ≠ 'e' ∧ c ≠ 'E') (cs : List Char) :
    Ends (c :: cs) := by
  intro x hx
  cases hx
  exact h

/-- A token that is no numeral may have anything behind it. -/
theorem Spelled.cons {t : Token} {ts : List Token} {cs : List Char} (ht : t.Written)
    (hn : ∀ spelling, t ≠ numeral spelling) (h : Spelled ts cs) : Spelled (t :: ts) (t.text ++ cs) :=
  .token ht (fun _ e => absurd e (hn _)) h

theorem Spelled.comma {ts : List Token} {cs : List Char} (h : Spelled ts cs) : Spelled (.comma :: ts) (',' :: cs) :=
  .cons (t := .comma) trivial (fun _ => nofun) h

theorem Spelled.colon {ts : List Token} {cs : List Char} (h : Spelled ts cs) : Spelled (.colon :: ts) (':' :: cs) :=
  .cons (t := .colon) trivial (fun _ => nofun) h

theorem Spelled.string {ts : List Token} {cs : List Char} (s : String) (h : Spelled ts cs) :
    Spelled (.string s :: ts) (quoted s.toList ++ cs) := .cons (t := .string s) trivial (fun _ => nofun) h

theorem Spelled.key {ts : List Token} {cs : List Char} (k : String) (h : Spelled ts cs) :
    Spelled (.string k :: .colon :: ts) (quoted k.toList ++ ':' :: cs) := .string k (.colon h)

end Token

open Token

/-! ## What the printer writes -/

/-- The characters spell the tokens of the value in front of anything that may follow a value. -/
def Writes (v : Json) (cs : List Char) : Prop :=
  ∀ ts rest, Ends rest → Spelled ts rest → Spelled (tokens v ++ ts) (cs ++ rest)

theorem writes_number (n : Number) : Writes (.number n) n.text := by
  intro ts rest he h
  obtain ⟨s, hs, ht⟩ := Number.exists_spelling n
  exact .token ⟨s, hs, ht⟩ (fun _ _ => he) h

theorem writes_scalar {v : Json} {t : Token} (hv : tokens v = [t]) (ht : t.Written)
    (hn : ∀ spelling, t ≠ numeral spelling) : Writes v t.text := by
  intro ts rest _ h
  rw [hv]
  exact .cons ht hn h

theorem writes_null : Writes .null (Token.text .null) := writes_scalar rfl trivial fun _ => nofun
theorem writes_bool (b : Bool) : Writes (.bool b) (Token.text (.bool b)) := writes_scalar rfl trivial fun _ => nofun
theorem writes_string (s : String) : Writes (.string s) (Token.quoted s.toList) :=
  writes_scalar (t := .string s) rfl trivial fun _ => nofun

theorem writes_array {items : List Json} {cs : List Char}
    (h : ∀ ts rest, Ends rest → Spelled ts rest → Spelled (itemTokens items ++ ts) (cs ++ rest)) :
    Writes (.array items) ('[' :: (cs ++ [']'])) := by
  intro ts rest _ hr
  have hclose : Spelled (.closeArray :: ts) (']' :: rest) := .cons (t := .closeArray) trivial (fun _ => nofun) hr
  have hinner := h _ _ (ends_cons (by decide) rest) hclose
  simp only [tokens, List.cons_append, List.append_assoc, List.nil_append]
  exact .cons (t := .openArray) trivial (fun _ => nofun) hinner

theorem writes_object {ms : Members} {cs : List Char}
    (h : ∀ ts rest, Ends rest → Spelled ts rest → Spelled (memberTokens ms ++ ts) (cs ++ rest)) :
    Writes (.object ms) ('\x7b' :: (cs ++ ['\x7d'])) := by
  intro ts rest _ hr
  have hclose : Spelled (.closeObject :: ts) ('\x7d' :: rest) := .cons (t := .closeObject) trivial (fun _ => nofun) hr
  have hinner := h _ _ (ends_cons (by decide) rest) hclose
  simp only [tokens, List.cons_append, List.append_assoc, List.nil_append]
  exact .cons (t := .openObject) trivial (fun _ => nofun) hinner

/-! ## Compact -/

theorem spelled_compactItems {items : List Json} (hi : ∀ v ∈ items, Writes v (compactChars v)) (ts : List Token)
    (rest : List Char) (he : Ends rest) (h : Spelled ts rest) :
    Spelled (itemTokens items ++ ts) ((itemTokens items).flatMap Token.text ++ rest) := by
  induction items with
  | nil => exact h
  | cons v items ih =>
    have hv := hi v List.mem_cons_self
    have hrest := ih fun w hw => hi w (List.mem_cons_of_mem _ hw)
    cases items with
    | nil => exact hv ts rest he h
    | cons w items =>
      have := hv _ _ (ends_cons (by decide) _) (.comma hrest)
      simpa [itemTokens, compactChars, Token.text] using this

theorem spelled_compactMembers {ms : Members} (hm : ∀ m ∈ ms, Writes m.2 (compactChars m.2)) (ts : List Token)
    (rest : List Char) (he : Ends rest) (h : Spelled ts rest) :
    Spelled (memberTokens ms ++ ts) ((memberTokens ms).flatMap Token.text ++ rest) := by
  induction ms with
  | nil => exact h
  | cons m ms ih =>
    obtain ⟨k, v⟩ := m
    have hv : Writes v (compactChars v) := hm (k, v) List.mem_cons_self
    have hrest := ih fun w hw => hm w (List.mem_cons_of_mem _ hw)
    cases ms with
    | nil =>
      have := Spelled.key k (hv ts rest he h)
      simpa [memberTokens, compactChars, Token.text] using this
    | cons w ms =>
      have := Spelled.key k (hv _ _ (ends_cons (by decide) _) (.comma hrest))
      simpa [memberTokens, compactChars, Token.text] using this

theorem writes_compact (v : Json) : Writes v (compactChars v) := by
  induction v using induct with
  | null => exact writes_null
  | bool b => simpa [compactChars, tokens] using writes_bool b
  | number n => simpa [compactChars, tokens, Token.text] using writes_number n
  | string s => simpa [compactChars, tokens, Token.text] using writes_string s
  | array items ih =>
    have := writes_array (spelled_compactItems ih)
    simpa [compactChars, tokens, Token.text] using this
  | object ms ih =>
    have := writes_object (spelled_compactMembers ih)
    simpa [compactChars, tokens, Token.text] using this

/-- The compact text of a value spells its tokens. -/
theorem spelled_compact (v : Json) : Spelled (tokens v) (compactChars v) := by
  have h := writes_compact v [] [] (fun _ h => nomatch h) .nil
  simpa using h

/-! ## Pretty -/

theorem Token.Spelled.newline {ts : List Token} {cs : List Char} (level : Nat) (h : Spelled ts cs) :
    Spelled ts (newline level ++ cs) := by
  refine .blank rfl (.blanks (fun c hc => ?_) h)
  rw [List.eq_of_mem_replicate hc]
  rfl

theorem spelled_prettyItems {items : List Json} {level : Nat} (hi : ∀ v ∈ items, Writes v (prettyChars level v))
    (ts : List Token) (rest : List Char) (he : Ends rest) (h : Spelled ts rest) :
    Spelled (itemTokens items ++ ts) (prettyItems level items ++ rest) := by
  induction items with
  | nil => exact h
  | cons v items ih =>
    have hv := hi v List.mem_cons_self
    have hrest := ih fun w hw => hi w (List.mem_cons_of_mem _ hw)
    cases items with
    | nil =>
      have := Spelled.newline level (hv ts rest he h)
      simpa [itemTokens, prettyItems] using this
    | cons w items =>
      have := Spelled.newline level (hv _ _ (ends_cons (by decide) _) (.comma hrest))
      simpa [itemTokens, prettyItems] using this

theorem spelled_prettyMembers {ms : Members} {level : Nat} (hm : ∀ m ∈ ms, Writes m.2 (prettyChars level m.2))
    (ts : List Token) (rest : List Char) (he : Ends rest) (h : Spelled ts rest) :
    Spelled (memberTokens ms ++ ts) (prettyMembers level ms ++ rest) := by
  induction ms with
  | nil => exact h
  | cons m ms ih =>
    obtain ⟨k, v⟩ := m
    have hv : Writes v (prettyChars level v) := hm (k, v) List.mem_cons_self
    have hrest := ih fun w hw => hm w (List.mem_cons_of_mem _ hw)
    cases ms with
    | nil =>
      have := Spelled.newline level (.key k (.blank (c := ' ') rfl (hv ts rest he h)))
      simpa [memberTokens, prettyMembers] using this
    | cons w ms =>
      have := Spelled.newline level (.key k (.blank (c := ' ') rfl (hv _ _ (ends_cons (by decide) _) (.comma hrest))))
      simpa [memberTokens, prettyMembers] using this

/-- The line end in front of a closing bracket may follow a value. -/
theorem closing_newline {written : List Token → List Token} {cs : List Char} (level : Nat)
    (h : ∀ ts rest, Ends rest → Spelled ts rest → Spelled (written ts) (cs ++ rest)) :
    ∀ ts rest, Ends rest → Spelled ts rest → Spelled (written ts) (cs ++ newline level ++ rest) := by
  intro ts rest _ hr
  rw [List.append_assoc]
  exact h _ _ (ends_cons (by decide) _) (.newline level hr)

theorem writes_pretty (v : Json) : ∀ level, Writes v (prettyChars level v) := by
  induction v using induct with
  | null => exact fun _ => writes_null
  | bool b => exact fun _ => writes_bool b
  | number n => exact fun _ => writes_number n
  | string s => exact fun _ => writes_string s
  | array items ih =>
    intro level
    cases items with
    | nil =>
      have h : Writes (.array []) ('[' :: ([] ++ [']'])) := writes_array fun _ _ _ h => h
      exact h
    | cons v items =>
      have := writes_array (closing_newline level (spelled_prettyItems fun w hw => ih w hw (level + 1)))
      simpa [prettyChars] using this
  | object ms ih =>
    intro level
    cases ms with
    | nil =>
      have h : Writes (.object []) ('\x7b' :: ([] ++ ['\x7d'])) := writes_object fun _ _ _ h => h
      exact h
    | cons m ms =>
      have := writes_object (closing_newline level (spelled_prettyMembers fun w hw => ih w hw (level + 1)))
      simpa [prettyChars] using this

/-- The pretty text of a value spells the same tokens. -/
theorem spelled_pretty (v : Json) : Spelled (tokens v) (prettyChars 0 v) := by
  have h := writes_pretty v 0 [] [] (fun _ h => nomatch h) .nil
  simpa using h

end PolicySeal.Json
