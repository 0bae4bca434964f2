import PolicySeal.Proofs.Json.NumberRead
import PolicySeal.Proofs.Json.Spelling
/-
  PolicySeal.Proofs.Json.RoundTrip — written values, told apart and read again.

  The tokens of a value end where the value ends: whatever follows, they tell the value
  (`tokens_prefix_free`). So a text is the compact text of one value at most
  (`compact_injective`).

  The reader goes back over the same tokens (`ofTokens_tokens`). What it then makes of
  a value depends on nothing but its numbers, its keys and its depth: with keys that stand
  once and at most `nestingLimit` levels it is the value with its numbers as their texts read
  (`ofText?_compact`), and where these read back it is the value again, from the compact and
  from the pretty text (`ofText?_written`). Whatever the text, no key stands twice in what was
  read (`distinct_of_ofText?`), and it is not too deep to be read again (`depth_of_ofText?`).
-/

namespace PolicySeal.Json

open Token

/-! ## Values told apart -/

/-- No value begins like the end of an array. -/
theorem exists_head_tokens (v : Json) : ∃ t ts, tokens v = t :: ts ∧ t ≠ .closeArray := by
  cases v <;> simp [tokens]

/-- The tokens of the items that follow an item. -/
def moreItems (items : List Json) : List Token := if items.isEmpty then [] else .comma :: itemTokens items

def moreMembers (ms : Members) : List Token := if ms.isEmpty then [] else .comma :: memberTokens ms

theorem itemTokens_cons (v : Json) (items : List Json) : itemTokens (v :: items) = tokens v ++ moreItems items := by
  cases items <;> simp [itemTokens, moreItems]

theorem memberTokens_cons (m : String × Json) (ms : Members) :
    memberTokens (m :: ms) = .string m.1 :: .colon :: (tokens m.2 ++ moreMembers ms) := by
  cases ms <;> simp [memberTokens, moreMembers]

section

variable {r s : List Token}

/-- After an item either both arrays end or both go on. -/
theorem moreItems_cases {as bs : List Json} (h : moreItems as ++ .closeArray :: r = moreItems bs ++ .closeArray :: s) :
    (as = [] ∧ bs = [] ∧ r = s) ∨ itemTokens as ++ .closeArray :: r = itemTokens bs ++ .closeArray :: s := by
  cases as <;> cases bs <;> simp_all [moreItems]

theorem moreMembers_cases {as bs : Members}
    (h : moreMembers as ++ .closeObject :: r = moreMembers bs ++ .closeObject :: s) :
    (as = [] ∧ bs = [] ∧ r = s) ∨ memberTokens as ++ .closeObject :: r = memberTokens bs ++ .closeObject :: s := by
  cases as <;> cases bs <;> simp_all [moreMembers]

theorem itemTokens_prefix_free {as bs : List Json}
    (ih : ∀ v ∈ as, ∀ w r s, tokens v ++ r = tokens w ++ s → v = w ∧ r = s)
    (h : itemTokens as ++ .closeArray :: r = itemTokens bs ++ .closeArray :: s) : as = bs ∧ r = s := by
  induction as generalizing bs with
  | nil =>
    cases bs with
    | nil => exact ⟨rfl, by simpa [itemTokens] using h⟩
    | cons b bs =>
      obtain ⟨t, ts, ht, hne⟩ := exists_head_tokens b
      rw [itemTokens_cons, ht] at h
      simp only [itemTokens, List.nil_append, List.cons_append, List.cons.injEq] at h
      exact absurd h.1.symm hne
  | cons a as hind =>
    cases bs with
    | nil =>
      obtain ⟨t, ts, ht, hne⟩ := exists_head_tokens a
      rw [itemTokens_cons, ht] at h
      simp only [itemTokens, List.nil_append, List.cons_append, List.cons.injEq] at h
      exact absurd h.1 hne
    | cons b bs =>
      rw [itemTokens_cons, itemTokens_cons, List.append_assoc, List.append_assoc] at h
      obtain ⟨rfl, hmore⟩ := ih a List.mem_cons_self b _ _ h
      rcases moreItems_cases hmore with ⟨rfl, rfl, hr⟩ | hrest
      · exact ⟨rfl, hr⟩
      · obtain ⟨has, hr⟩ := hind (fun v hv => ih v (List.mem_cons_of_mem _ hv)) hrest
        exact ⟨by rw [has], hr⟩

theorem memberTokens_prefix_free {as bs : Members}
    (ih : ∀ m ∈ as, ∀ w r s, tokens m.2 ++ r = tokens w ++ s → m.2 = w ∧ r = s)
    (h : memberTokens as ++ .closeObject :: r = memberTokens bs ++ .closeObject :: s) : as = bs ∧ r = s := by
  induction as generalizing bs with
  | nil =>
    cases bs with
    | nil => exact ⟨rfl, by simpa [memberTokens] using h⟩
    | cons b bs =>
      rw [memberTokens_cons] at h
      simp [memberTokens] at h
  | cons a as hind =>
    cases bs with
    | nil =>
      rw [memberTokens_cons] at h
      simp [memberTokens] at h
    | cons b bs =>
      rw [memberTokens_cons, memberTokens_cons] at h
      simp only [List.cons_append, List.cons.injEq, Token.string.injEq, List.append_assoc, true_and] at h
      obtain ⟨hkey, h⟩ := h
      obtain ⟨hvalue, hmore⟩ := ih a List.mem_cons_self b.2 _ _ h
      have hab : a = b := Prod.ext hkey hvalue
      rcases moreMembers_cases hmore with ⟨rfl, rfl, hr⟩ | hrest
      · exact ⟨by rw [hab], hr⟩
      · obtain ⟨has, hr⟩ := hind (fun m hm => ih m (List.mem_cons_of_mem _ hm)) hrest
        exact ⟨by rw [hab, has], hr⟩

end

/-- The tokens of a value tell the value, whatever follows them. -/
theorem tokens_prefix_free (v : Json) : ∀ w r s, tokens v ++ r = tokens w ++ s → v = w ∧ r = s := by
  induction v using induct with
  | null => intro w r s h; cases w <;> simp_all [tokens]
  | bool b => intro w r s h; cases w <;> simp_all [tokens]
  | number n =>
    intro w r s h
    cases w with
    | number m =>
      simp only [tokens, List.cons_append, List.nil_append, List.cons.injEq, Token.numeral.injEq] at h
      exact ⟨by rw [Number.text_injective h.1], h.2⟩
    | _ => simp [tokens] at h
  | string t => intro w r s h; cases w <;> simp_all [tokens]
  | array items ih =>
    intro w r s h
    cases w with
    | array others =>
      simp only [tokens, List.cons_append, List.append_assoc, List.nil_append, List.cons.injEq, true_and] at h
      obtain ⟨rfl, hr⟩ := itemTokens_prefix_free ih h
      exact ⟨rfl, hr⟩
    | _ => simp [tokens] at h
  | object ms ih =>
    intro w r s h
    cases w with
    | object others =>
      simp only [tokens, List.cons_append, List.append_assoc, List.nil_append, List.cons.injEq, true_and] at h
      obtain ⟨rfl, hr⟩ := memberTokens_prefix_free ih h
      exact ⟨rfl, hr⟩
    | _ => simp [tokens] at h

/-- Distinct values have distinct compact texts. -/
theorem compact_injective {v w : Json} (h : compact v = compact w) : v = w := by
  have hchars : compactChars v = compactChars w := by simpa [compact] using congrArg String.toList h
  have htokens : tokens v = tokens w := by
    rw [← ofText_of_spelled (spelled_compact v), hchars, ofText_of_spelled (spelled_compact w)]
  exact (tokens_prefix_free v w [] [] (by rw [htokens])).1

/-! ## Read again -/

mutual

/-- What the reader makes of a written value: only numbers can come back faulty. -/
def reread : Json → Draft
  | .null => .scalar .null
  | .bool b => .scalar (.bool b)
  | .number n =>
    match Number.ofText? n.text with
    | some m => .scalar (.number m)
    | none => .faulty
  | .string s => .scalar (.string s)
  | .array items => .array (rereadItems items)
  | .object ms => .object (rereadMembers ms)

def rereadItems : List Json → List Draft
  | [] => []
  | v :: rest => reread v :: rereadItems rest

def rereadMembers : List (String × Json) → List (Option String × Draft)
  | [] => []
  | (k, v) :: rest => (some k, reread v) :: rereadMembers rest

end

namespace Draft

variable {fuel : Nat} {rest : List Token}

/-- The reader takes a value off the head of any tokens that begin with the tokens of the value. -/
def Takes (v : Json) : Prop :=
  ∀ fuel rest, 2 * (tokens v).length ≤ fuel + 1 → ofTokensWithin fuel (tokens v ++ rest) = (reread v, rest)

theorem itemsWithin_tokens {items : List Json} (hne : items ≠ []) (hi : ∀ v ∈ items, Takes v)
    (hf : 2 * (itemTokens items).length ≤ fuel) :
    itemsWithin fuel (itemTokens items ++ .closeArray :: rest) = (rereadItems items, rest) := by
  induction items generalizing fuel with
  | nil => exact absurd rfl hne
  | cons v items ih =>
    have hv := hi v List.mem_cons_self
    obtain ⟨t, ts, hhead, -⟩ := exists_head_tokens v
    have hpos : 0 < (tokens v).length := by simp [hhead]
    rw [itemTokens_cons, List.length_append] at hf
    obtain ⟨fuel, rfl⟩ : ∃ n, fuel = n + 1 := ⟨fuel - 1, by omega⟩
    rw [itemTokens_cons, List.append_assoc, itemsWithin, hv fuel _ (by omega)]
    cases items with
    | nil => rfl
    | cons w items =>
      simp only [moreItems, List.isEmpty_cons, Bool.false_eq_true, if_false, List.length_cons] at hf
      have hmore : itemsWithin fuel (itemTokens (w :: items) ++ .closeArray :: rest) = (rereadItems (w :: items), rest) :=
        ih (by simp) (fun u hu => hi u (List.mem_cons_of_mem _ hu)) (by omega)
      simp only [moreItems, List.isEmpty_cons, Bool.false_eq_true, if_false, List.cons_append, hmore, rereadItems]

theorem membersWithin_tokens {ms : Members} (hne : ms ≠ []) (hm : ∀ m ∈ ms, Takes m.2)
    (hf : 2 * (memberTokens ms).length ≤ fuel) :
    membersWithin fuel (memberTokens ms ++ .closeObject :: rest) = (rereadMembers ms, rest) := by
  induction ms generalizing fuel with
  | nil => exact absurd rfl hne
  | cons m ms ih =>
    have hv := hm m List.mem_cons_self
    rw [memberTokens_cons] at hf
    simp only [List.length_cons, List.length_append] at hf
    obtain ⟨fuel, rfl⟩ : ∃ n, fuel = n + 1 := ⟨fuel - 1, by omega⟩
    have hle : 2 * (tokens m.2).length ≤ fuel + 1 := by omega
    simp only [memberTokens_cons, List.cons_append, List.append_assoc, membersWithin, hv fuel _ hle]
    cases ms with
    | nil => rfl
    | cons w ms =>
      simp only [moreMembers, List.isEmpty_cons, Bool.false_eq_true, if_false, List.length_cons] at hf
      have hmore : membersWithin fuel (memberTokens (w :: ms) ++ .closeObject :: rest) = (rereadMembers (w :: ms), rest) :=
        ih (by simp) (fun u hu => hm u (List.mem_cons_of_mem _ hu)) (by omega)
      simp only [moreMembers, List.isEmpty_cons, Bool.false_eq_true, if_false, List.cons_append, hmore, rereadMembers]

theorem ofTokensWithin_openArray {ts : List Token} (h : ∀ r, ts ≠ .closeArray :: r) :
    ofTokensWithin (fuel + 1) (.openArray :: ts) = (.array (itemsWithin fuel ts).1, (itemsWithin fuel ts).2) := by
  simp only [ofTokensWithin]

theorem ofTokensWithin_openObject {ts : List Token} (h : ∀ r, ts ≠ .closeObject :: r) :
    ofTokensWithin (fuel + 1) (.openObject :: ts) = (.object (membersWithin fuel ts).1, (membersWithin fuel ts).2) := by
  simp only [ofTokensWithin]

/-- The reader goes back over the tokens of a value and leaves what follows. -/
theorem takes (v : Json) : Takes v := by
  induction v using induct with
  | null | bool _ | string _ =>
    intro fuel rest hf
    simp only [tokens, List.length_singleton] at hf
    obtain ⟨n, rfl⟩ : ∃ n, fuel = n + 1 := ⟨fuel - 1, by omega⟩
    rfl
  | number x =>
    intro fuel rest hf
    simp only [tokens, List.length_singleton] at hf
    obtain ⟨n, rfl⟩ : ∃ n, fuel = n + 1 := ⟨fuel - 1, by omega⟩
    simp only [tokens, List.cons_append, List.nil_append, ofTokensWithin, reread]
    cases Number.ofText? x.text <;> rfl
  | array items ih =>
    intro fuel rest hf
    simp only [tokens, List.length_cons, List.length_append, List.length_nil] at hf
    obtain ⟨n, rfl⟩ : ∃ n, fuel = n + 1 := ⟨fuel - 1, by omega⟩
    simp only [tokens, List.cons_append, List.append_assoc, List.nil_append]
    cases items with
    | nil => rfl
    | cons v items =>
      have hopen : ∀ r, itemTokens (v :: items) ++ .closeArray :: rest ≠ .closeArray :: r := by
        intro r h
        obtain ⟨t, ts, ht, hne⟩ := exists_head_tokens v
        rw [itemTokens_cons, ht] at h
        exact hne (List.cons.inj h).1
      rw [ofTokensWithin_openArray hopen, itemsWithin_tokens (by simp) ih (by omega)]
      rfl
  | object ms ih =>
    intro fuel rest hf
    simp only [tokens, List.length_cons, List.length_append, List.length_nil] at hf
    obtain ⟨n, rfl⟩ : ∃ n, fuel = n + 1 := ⟨fuel - 1, by omega⟩
    simp only [tokens, List.cons_append, List.append_assoc, List.nil_append]
    cases ms with
    | nil => rfl
    | cons m ms =>
      have hopen : ∀ r, memberTokens (m :: ms) ++ .closeObject :: rest ≠ .closeObject :: r := by
        intro r h
        rw [memberTokens_cons] at h
        cases (List.cons.inj h).1
      rw [ofTokensWithin_openObject hopen, membersWithin_tokens (by simp) ih (by omega)]
      rfl

theorem ofTokens_tokens (v : Json) : ofTokens (tokens v) = (reread v, []) := by
  have h := takes v (2 * (tokens v).length + 1) [] (by omega)
  rwa [List.append_nil] at h

end Draft

/-! ## Values that come back -/

/-- The text of every number inside reads as that number. -/
def NumbersReadBack (v : Json) : Prop := Every (fun u => ∀ n, u = .number n → n.ReadsBack) v

@[simp] theorem numbersReadBack_null : NumbersReadBack .null := every_null.mpr fun _ e => nomatch e
@[simp] theorem numbersReadBack_bool (b : Bool) : NumbersReadBack (.bool b) := every_bool.mpr fun _ e => nomatch e
@[simp] theorem numbersReadBack_string (s : String) : NumbersReadBack (.string s) :=
  every_string.mpr fun _ e => nomatch e

@[simp] theorem numbersReadBack_number {n : Number} : NumbersReadBack (.number n) ↔ n.ReadsBack := by
  rw [NumbersReadBack, every_number]
  refine ⟨fun h => h n rfl, fun h _ e => ?_⟩
  cases e
  exact h

@[simp] theorem numbersReadBack_array {items : List Json} :
    NumbersReadBack (.array items) ↔ ∀ v ∈ items, NumbersReadBack v := by
  rw [NumbersReadBack, every_array]
  exact ⟨And.right, fun h => ⟨fun _ e => (nomatch e), h⟩⟩

@[simp] theorem numbersReadBack_object {ms : Members} : NumbersReadBack (.object ms) ↔ ∀ m ∈ ms, NumbersReadBack m.2 := by
  rw [NumbersReadBack, every_object]
  exact ⟨And.right, fun h => ⟨fun _ e => (nomatch e), h⟩⟩

mutual

/-- The value with every number as its text reads. -/
def renumber : Json → Json
  | .number n => .number n.again
  | .array items => .array (renumberItems items)
  | .object ms => .object (renumberMembers ms)
  | v => v

def renumberItems : List Json → List Json
  | [] => []
  | v :: rest => renumber v :: renumberItems rest

def renumberMembers : List (String × Json) → List (String × Json)
  | [] => []
  | (k, v) :: rest => (k, renumber v) :: renumberMembers rest

end

theorem renumberItems_eq (items : List Json) : renumberItems items = items.map renumber := by
  induction items with
  | nil => rfl
  | cons v items ih => rw [renumberItems, ih, List.map_cons]

theorem renumberMembers_eq (ms : Members) : renumberMembers ms = ms.map fun m => (m.1, renumber m.2) := by
  induction ms with
  | nil => rfl
  | cons m ms ih => rw [renumberMembers, ih, List.map_cons]

/-- Only keys are compared, and they stay. -/
theorem keys_renumberMembers (ms : Members) : Members.keys (renumberMembers ms) = Members.keys ms := by
  rw [renumberMembers_eq, Members.keys, Members.keys, List.map_map]
  rfl

/-- A value stays as it is when its numbers do. -/
theorem renumber_eq_self_iff {v : Json} : renumber v = v ↔ NumbersReadBack v := by
  induction v using induct with
  | null => simp [renumber]
  | bool b => simp [renumber]
  | string s => simp [renumber]
  | number n => simp [renumber, Number.again_eq_self_iff]
  | array items ih =>
    rw [renumber, Json.array.injEq, renumberItems_eq, numbersReadBack_array]
    nth_rewrite 2 [← List.map_id items]
    rw [List.map_inj_left]
    exact forall₂_congr ih
  | object ms ih =>
    rw [renumber, Json.object.injEq, renumberMembers_eq, numbersReadBack_object]
    nth_rewrite 2 [← List.map_id ms]
    rw [List.map_inj_left]
    refine forall₂_congr fun m hm => ?_
    rw [← ih m hm, id, Prod.ext_iff]
    simp

namespace Draft

theorem reread_number (n : Number) : reread (.number n) = .scalar (.number n.again) := by
  rw [reread, Number.ofText?_text]

theorem itemValues_reread {items : List Json} {d : Nat}
    (h : ∀ v ∈ items, valueWithin d (reread v) = some (renumber v)) :
    itemValues d (rereadItems items) = some (renumberItems items) := by
  induction items with
  | nil => rfl
  | cons v items ih =>
    simp [rereadItems, renumberItems, itemValues, h v List.mem_cons_self, ih fun w hw => h w (List.mem_cons_of_mem _ hw)]

theorem memberValues_reread {ms : Members} {d : Nat}
    (h : ∀ m ∈ ms, valueWithin d (reread m.2) = some (renumber m.2)) :
    memberValues d (rereadMembers ms) = some (renumberMembers ms) := by
  induction ms with
  | nil => rfl
  | cons m ms ih =>
    simp [rereadMembers, renumberMembers, memberValues, h m List.mem_cons_self,
      ih fun w hw => h w (List.mem_cons_of_mem _ hw)]

/-- A value whose keys stand once is found again where it is not too deep, with its numbers as their texts read. -/
theorem valueWithin_reread_renumber (v : Json) :
    ∀ d, depth v ≤ d → Distinct v → valueWithin d (reread v) = some (renumber v) := by
  induction v using induct with
  | null | bool _ | string _ =>
    intros
    rfl
  | number n =>
    intro d _ _
    rw [reread_number]
    rfl
  | array items ih =>
    intro d hdepth hkeys
    obtain ⟨hd, hitems⟩ := depth_array_le.mp hdepth
    have hvalues := itemValues_reread fun v hv => ih v hv (d - 1) (hitems v hv) (distinct_array.mp hkeys v hv)
    simp only [reread, renumber, valueWithin, if_neg hd, hvalues, Option.map_some]
  | object ms ih =>
    intro d hdepth hkeys
    obtain ⟨hd, hmembers⟩ := depth_object_le.mp hdepth
    obtain ⟨hdistinct, hkeys⟩ := distinct_object.mp hkeys
    have hvalues := memberValues_reread fun m hm => ih m hm (d - 1) (hmembers m hm) (hkeys m hm)
    have hagain : Members.Distinct (renumberMembers ms) := by
      rw [Members.Distinct, keys_renumberMembers]
      exact hdistinct
    simp only [reread, renumber, valueWithin, if_neg hd, hvalues, Option.map_some, hagain.ofList_eq]

/-- Where its numbers read back it is the value again. -/
theorem valueWithin_reread (v : Json) (d : Nat) (hdepth : depth v ≤ d) (hkeys : Distinct v) (hn : NumbersReadBack v) :
    valueWithin d (reread v) = some v := by
  rw [valueWithin_reread_renumber v d hdepth hkeys, renumber_eq_self_iff.mpr hn]

end Draft

/-! ## Texts -/

theorem ofText?_of_spelled {v : Json} {text : String} (h : Spelled (tokens v) text.toList)
    (hdepth : depth v ≤ Draft.nestingLimit) (hkeys : Distinct v) : ofText? text = some (renumber v) := by
  rw [ofText?, ofText_of_spelled h, Draft.ofTokens_tokens]
  exact Draft.valueWithin_reread_renumber v _ hdepth hkeys

/-- Reading the compact text of a value succeeds, and gives the value with its numbers as their texts read. -/
theorem ofText?_compact {v : Json} (hdepth : depth v ≤ Draft.nestingLimit) (hkeys : Distinct v) :
    ofText? (compact v) = some (renumber v) :=
  ofText?_of_spelled (by simpa [compact] using spelled_compact v) hdepth hkeys

/-- A value comes back from its compact text, and from its pretty text. -/
theorem ofText?_written {v : Json} (hdepth : depth v ≤ Draft.nestingLimit) (hkeys : Distinct v)
    (hn : NumbersReadBack v) : ofText? (compact v) = some v ∧ ofText? (pretty v) = some v := by
  have hpretty : ofText? (pretty v) = some (renumber v) :=
    ofText?_of_spelled (by simpa [pretty] using spelled_pretty v) hdepth hkeys
  have hcompact := ofText?_compact hdepth hkeys
  rw [renumber_eq_self_iff.mpr hn] at hcompact hpretty
  exact ⟨hcompact, hpretty⟩

/-! ## The keys and the depth of what is read -/

namespace Draft

/-- A draft whose scalars hold no array and no object, as those of the reader. -/
inductive Flat : Draft → Prop
  | scalar {v : Json} : depth v = 0 → Flat (.scalar v)
  | faulty : Flat .faulty
  | array {items : List Draft} : (∀ d ∈ items, Flat d) → Flat (.array items)
  | object {ms : List (Option String × Draft)} : (∀ m ∈ ms, Flat m.2) → Flat (.object ms)
  | cut : Flat .cut

/-- A draft whose scalars hold no object with a key twice. -/
inductive Plain : Draft → Prop
  | scalar {v : Json} : Distinct v → Plain (.scalar v)
  | faulty : Plain .faulty
  | array {items : List Draft} : (∀ d ∈ items, Plain d) → Plain (.array items)
  | object {ms : List (Option String × Draft)} : (∀ m ∈ ms, Plain m.2) → Plain (.object ms)
  | cut : Plain .cut

theorem distinct_of_depth {v : Json} (h : depth v = 0) : Distinct v := by
  cases v with
  | null => exact distinct_null
  | bool b => exact distinct_bool b
  | number n => exact distinct_number n
  | string s => exact distinct_string s
  | array items => cases h
  | object ms => cases h

theorem Flat.plain {x : Draft} (h : Flat x) : Plain x := by
  induction h with
  | scalar hv => exact .scalar (distinct_of_depth hv)
  | faulty => exact .faulty
  | array _ ih => exact .array ih
  | object _ ih => exact .object ih
  | cut => exact .cut

theorem flat_ofTokensWithin {fuel : Nat} (hitems : ∀ ts, ∀ d ∈ (itemsWithin fuel ts).1, Flat d)
    (hmembers : ∀ ts, ∀ m ∈ (membersWithin fuel ts).1, Flat m.2) (ts : List Token) :
    Flat (ofTokensWithin (fuel + 1) ts).1 := by
  cases ts with
  | nil => exact .cut
  | cons t ts =>
    cases t with
    | null => exact .scalar rfl
    | bool b => exact .scalar rfl
    | string s => exact .scalar rfl
    | halfPair => exact .faulty
    | numeral spelling =>
      simp only [ofTokensWithin]
      split
      · exact .scalar rfl
      · exact .faulty
    | openArray =>
      simp only [ofTokensWithin]
      split
      · exact .array fun _ h => nomatch h
      · exact .array (hitems ts)
    | openObject =>
      simp only [ofTokensWithin]
      split
      · exact .object fun _ h => nomatch h
      · exact .object (hmembers ts)
    | _ => exact .cut

/-- Of what the reader builds, by the fuel: a value, the items of an array, the members of an object. -/
theorem flat_within (fuel : Nat) : (∀ ts, Flat (ofTokensWithin fuel ts).1) ∧
    (∀ ts, ∀ d ∈ (itemsWithin fuel ts).1, Flat d) ∧ (∀ ts, ∀ m ∈ (membersWithin fuel ts).1, Flat m.2) := by
  induction fuel with
  | zero =>
    exact ⟨fun _ => .cut, fun _ => List.forall_mem_singleton.mpr .cut, fun _ => List.forall_mem_singleton.mpr .cut⟩
  | succ fuel ih =>
    obtain ⟨hvalue, hitems, hmembers⟩ := ih
    refine ⟨flat_ofTokensWithin hitems hmembers, fun ts => ?_, fun ts => ?_⟩
    · have hv := hvalue ts
      simp only [itemsWithin]
      split <;> rename_i heq <;> rw [heq] at hv
      · exact List.forall_mem_cons.mpr ⟨hv, hitems _⟩
      · exact List.forall_mem_singleton.mpr hv
      · exact List.forall_mem_cons.mpr ⟨hv, List.forall_mem_singleton.mpr .cut⟩
    · simp only [membersWithin]
      split
      -- A key that is a string, then one that is faulty.
      iterate 2
        rename_i after
        have hv := hvalue after
        split <;> rename_i heq <;> rw [heq] at hv
        · exact List.forall_mem_cons.mpr ⟨hv, hmembers _⟩
        · exact List.forall_mem_singleton.mpr hv
        · exact List.forall_mem_cons.mpr ⟨hv, List.forall_mem_singleton.mpr .cut⟩
      · exact List.forall_mem_singleton.mpr .cut
      · exact List.forall_mem_singleton.mpr .cut

theorem distinct_ofList {ms : List (String × Json)} (h : ∀ m ∈ ms, Distinct m.2) :
    Distinct (.object (Members.ofList ms)) := by
  refine distinct_object.mpr ⟨Members.distinct_ofList ms, fun m hm => ?_⟩
  rcases Members.mem_foldl_put hm with hm | hm
  · cases hm
  · exact h m hm

theorem forall_itemValues {p : Json → Prop} {items : List Draft} {d : Nat}
    (ih : ∀ x ∈ items, ∀ v, valueWithin d x = some v → p v) {vs : List Json} (h : itemValues d items = some vs) :
    ∀ v ∈ vs, p v := by
  induction items generalizing vs with
  | nil =>
    cases h
    exact fun _ hv => nomatch hv
  | cons x items hind =>
    simp only [itemValues, Option.bind_eq_bind, Option.bind_eq_some_iff, pure, Option.some.injEq] at h
    obtain ⟨v, hv, rest, hrest, rfl⟩ := h
    exact List.forall_mem_cons.mpr
      ⟨ih x List.mem_cons_self v hv, hind (fun y hy => ih y (List.mem_cons_of_mem _ hy)) hrest⟩

theorem forall_memberValues {p : Json → Prop} {ms : List (Option String × Draft)} {d : Nat}
    (ih : ∀ x ∈ ms, ∀ v, valueWithin d x.2 = some v → p v) {vs : List (String × Json)}
    (h : memberValues d ms = some vs) : ∀ m ∈ vs, p m.2 := by
  induction ms generalizing vs with
  | nil =>
    cases h
    exact fun _ hv => nomatch hv
  | cons x ms hind =>
    obtain ⟨key, x⟩ := x
    cases key with
    | none => cases h
    | some k =>
      simp only [memberValues, Option.bind_eq_bind, Option.bind_eq_some_iff, pure, Option.some.injEq] at h
      obtain ⟨v, hv, rest, hrest, rfl⟩ := h
      exact List.forall_mem_cons.mpr
        ⟨ih (some k, x) List.mem_cons_self v hv, hind (fun y hy => ih y (List.mem_cons_of_mem _ hy)) hrest⟩

theorem Plain.distinct_value {x : Draft} (h : Plain x) : ∀ d v, valueWithin d x = some v → Distinct v := by
  induction h with
  | scalar hv =>
    intro d v h
    cases h
    exact hv
  | faulty => intro d v h; cases h
  | cut => intro d v h; cases h
  | array _ ih =>
    intro d v h
    simp only [valueWithin] at h
    split at h
    · cases h
    · obtain ⟨vs, hvs, rfl⟩ := Option.map_eq_some_iff.mp h
      exact distinct_array.mpr (forall_itemValues (fun x hx => ih x hx _) hvs)
  | object _ ih =>
    intro d v h
    simp only [valueWithin] at h
    split at h
    · cases h
    · obtain ⟨vs, hvs, rfl⟩ := Option.map_eq_some_iff.mp h
      exact distinct_ofList (forall_memberValues (fun x hx => ih x hx _) hvs)

theorem plain_ofTokens (ts : List Token) : Plain (ofTokens ts).1 := ((flat_within _).1 ts).plain

theorem Flat.depth_value {x : Draft} (h : Flat x) : ∀ d v, valueWithin d x = some v → depth v ≤ d := by
  induction h with
  | scalar hv =>
    intro d v h
    cases h
    omega
  | faulty => intro d v h; cases h
  | cut => intro d v h; cases h
  | array _ ih =>
    intro d v h
    simp only [valueWithin] at h
    split at h
    · cases h
    · rename_i hd
      obtain ⟨vs, hvs, rfl⟩ := Option.map_eq_some_iff.mp h
      exact depth_array_le.mpr ⟨hd, forall_itemValues (fun x hx => ih x hx _) hvs⟩
  | object _ ih =>
    intro d v h
    simp only [valueWithin] at h
    split at h
    · cases h
    · rename_i hd
      obtain ⟨vs, hvs, rfl⟩ := Option.map_eq_some_iff.mp h
      refine depth_object_le.mpr ⟨hd, fun m hm => ?_⟩
      rcases Members.mem_foldl_put hm with hm | hm
      · cases hm
      · exact forall_memberValues (p := fun v => depth v ≤ d - 1) (fun x hx => ih x hx _) hvs m hm

end Draft

theorem ofText?_eq_some {text : String} {v : Json} (h : ofText? text = some v) :
    Draft.valueWithin Draft.nestingLimit (Draft.ofTokens (Token.ofText text.toList)).1 = some v := by
  rw [ofText?] at h
  split at h
  · rename_i d heq
    rw [heq]
    exact h
  · cases h

/-- In a value that was read every key stands once, however often the text repeats it. -/
theorem distinct_of_ofText? {text : String} {v : Json} (h : ofText? text = some v) : Distinct v :=
  (Draft.plain_ofTokens _).distinct_value _ v (ofText?_eq_some h)

/-- A value that was read is not too deep to be read again. -/
theorem depth_of_ofText? {text : String} {v : Json} (h : ofText? text = some v) : depth v ≤ Draft.nestingLimit :=
  ((Draft.flat_within _).1 _).depth_value _ v (ofText?_eq_some h)

end PolicySeal.Json
