import PolicySeal.Pem
import PolicySeal.Proofs.Base64
/-
  PolicySeal.Proofs.Pem — documents are read from their text as they were written.

  The text of a document is a begin line, lines of base64 and an end line (`encode_eq`). What is
  between the two is joined to what was cut into lines (`joinLines_lines`), and that is decoded to
  the content (`decode?_text`). No line of base64 holds a dash, so no end line stands in the text of
  a document but its own, and documents that are written one after the other are cut where each of
  them ends (`splitAfter_pieces`). For the same reason a begin mark stands only where one of them
  starts (`beginMark_iff`).
-/

namespace PolicySeal

/-! ## Texts of ASCII -/

theorem Text.utf8_append (a b : String) : utf8 (a ++ b) = utf8 a ++ utf8 b := by
  rw [utf8, String.toList_append, List.flatMap_append, ← utf8, ← utf8]

theorem Text.ofAscii_append (a b : Bytes) : ofAscii (a ++ b) = ofAscii a ++ ofAscii b := by
  rw [ofAscii, List.map_append, String.ofList_append, ← ofAscii, ← ofAscii]

/-- The end of the last line is trimmed off a text, and nothing else where it starts and ends with a sign. -/
theorem Text.trim_ofAscii_line {first last : UInt8} {middle : Bytes} (hfirst : Base64.Visible first)
    (hlast : Base64.Visible last) :
    trim (ofAscii (first :: middle ++ [last] ++ [Pem.lf])) = ofAscii (first :: middle ++ [last]) := by
  have hlf : isBlank (Char.ofNat Pem.lf.toNat) = true := by decide
  simp only [trim, ofAscii, String.toList_ofList, trimChars, trimStartChars, trimEndChars, List.map_append, List.map_cons,
    List.map_nil, List.cons_append, List.dropWhile_cons, hfirst.2, Bool.false_eq_true, if_false]
  simp [hlf, hlast.2]

namespace Pem

/-! ## Lines -/

theorem beforeLineEnd?_sign {front : Bytes} {b : UInt8} (hlf : b ≠ lf) (hcr : b ≠ cr) :
    beforeLineEnd? (front ++ [b]) = none := by
  rw [beforeLineEnd?, List.reverse_append, List.reverse_singleton, List.singleton_append]
  split
  · rename_i heq
    exact absurd (List.cons.inj heq).1 hlf
  · rename_i heq
    exact absurd (List.cons.inj heq).1 hlf
  · rename_i heq
    exact absurd (List.cons.inj heq).1 hcr
  · rfl

theorem beforeLineEnd?_lf {front : Bytes} {b : UInt8} (hcr : b ≠ cr) :
    beforeLineEnd? (front ++ [b] ++ [lf]) = some (front ++ [b]) := by
  rw [beforeLineEnd?, List.reverse_append, List.reverse_append, List.reverse_singleton, List.reverse_singleton,
    List.singleton_append, List.singleton_append]
  split
  · rename_i heq
    exact absurd (List.cons.inj (List.cons.inj heq).2).1 hcr
  · rename_i heq
    rw [← (List.cons.inj heq).2]
    simp
  · rename_i heq
    exact absurd (List.cons.inj heq).1 (by decide)
  · rename_i hother _
    exact absurd rfl (hother _)

/-- What ends no line. -/
def IsSign (b : UInt8) : Prop := b ≠ lf ∧ b ≠ cr

theorem chunksWithin_nil (size fuel : Nat) : Bytes.chunksWithin size fuel [] = [] := by cases fuel <;> rfl

theorem joinLinesWithin_last {fuel : Nat} {text : Bytes} (h : text.length ≤ lineWidth) :
    joinLinesWithin (fuel + 1) text = some ((beforeLineEnd? text).getD text) := by
  rw [joinLinesWithin, List.drop_eq_nil_of_le h]

theorem joinLinesWithin_line {fuel : Nat} {line rest : Bytes} (h : line.length = lineWidth) :
    joinLinesWithin (fuel + 1) (line ++ lf :: rest) = (joinLinesWithin fuel rest).map (line ++ ·) := by
  rw [joinLinesWithin, List.drop_left' h, List.take_left' h]
  exact (Option.map_eq_bind ..).symm

/-- Signs that are cut into lines, each with its end but the last, are joined again. -/
theorem joinLines_lines {fuel : Nat} {bs : Bytes} (hne : bs ≠ []) (hfuel : bs.length ≤ fuel) (hsigns : ∀ b ∈ bs, IsSign b) :
    ∃ front last, IsSign last ∧
      (Bytes.chunksWithin lineWidth fuel bs).flatMap (· ++ [lf]) = front ++ [last] ++ [lf] ∧
      ∀ fuel, (front ++ [last]).length < fuel → joinLinesWithin fuel (front ++ [last]) = some bs := by
  induction fuel generalizing bs with
  | zero => exact absurd (List.length_eq_zero_iff.mp (Nat.le_zero.mp hfuel)) hne
  | succ fuel ih =>
    have hchunks : Bytes.chunksWithin lineWidth (fuel + 1) bs
        = bs.take lineWidth :: Bytes.chunksWithin lineWidth fuel (bs.drop lineWidth) := by
      rw [Bytes.chunksWithin]
      exact hne
    rw [hchunks, List.flatMap_cons]
    by_cases hshort : bs.length ≤ lineWidth
    · -- The last line.
      have hlast : IsSign (bs.getLast hne) := hsigns _ (List.getLast_mem hne)
      have hbs : bs.dropLast ++ [bs.getLast hne] = bs := List.dropLast_concat_getLast hne
      refine ⟨bs.dropLast, bs.getLast hne, hlast, ?_, fun fuel hlt => ?_⟩
      · rw [List.drop_eq_nil_of_le hshort, chunksWithin_nil, List.take_of_length_le hshort, List.flatMap_nil, List.append_nil,
          hbs]
      · obtain ⟨fuel, rfl⟩ := Nat.exists_eq_succ_of_ne_zero (Nat.ne_of_gt (Nat.zero_lt_of_lt hlt))
        rw [joinLinesWithin_last (hbs.symm ▸ hshort), beforeLineEnd?_sign hlast.1 hlast.2, Option.getD_none, hbs]
    · -- A full line, and those after it.
      have hwidth : (bs.take lineWidth).length = lineWidth := List.length_take_of_le (Nat.le_of_not_le hshort)
      have hrest : bs.drop lineWidth ≠ [] := fun h => hshort (List.drop_eq_nil_iff.mp h)
      have hlength : (bs.drop lineWidth).length ≤ fuel := by
        have hpos : 0 < lineWidth := by decide
        rw [List.length_drop]
        omega
      obtain ⟨front, last, hlast, hlines, hjoin⟩ := ih hrest hlength fun b hb => hsigns b (List.mem_of_mem_drop hb)
      refine ⟨bs.take lineWidth ++ lf :: front, last, hlast, ?_, fun fuel hlt => ?_⟩
      · rw [hlines]
        simp
      · obtain ⟨fuel, rfl⟩ := Nat.exists_eq_succ_of_ne_zero (Nat.ne_of_gt (Nat.zero_lt_of_lt hlt))
        have hless : (front ++ [last]).length < fuel := by
          simp only [List.length_append, List.length_cons] at hlt ⊢
          omega
        rw [List.append_assoc, List.cons_append, joinLinesWithin_line hwidth, hjoin fuel hless, Option.map_some,
          List.take_append_drop]

/-! ## One document -/

/-- The text of a document up to the end of its end line. -/
def text (label : String) (content : Bytes) : Bytes :=
  beginMark ++ Text.utf8 label ++ dashes ++ [lf]
    ++ (Bytes.chunks lineWidth (Base64.encodeBytes content)).flatMap (· ++ [lf]) ++ endLine label

theorem encode_eq (label : String) (content : Bytes) : encode label content = text label content ++ [lf] := rfl

theorem isSign_of_visible {b : UInt8} (h : Base64.Visible b) : IsSign b := by
  constructor
  · rintro rfl
    exact absurd h (by decide)
  · rintro rfl
    exact absurd h (by decide)

/-- An end line starts and ends with a dash. -/
theorem endLine_dashes (label : String) :
    (∃ back, endLine label = 0x2D :: back) ∧ ∃ front, endLine label = front ++ [0x2D] := by
  constructor
  · refine ⟨Text.utf8 "----END " ++ Text.utf8 label ++ dashes, ?_⟩
    rw [endLine, Text.utf8_append, Text.utf8_append]
    rfl
  · refine ⟨Text.utf8 ("-----END " ++ label) ++ [0x2D, 0x2D, 0x2D, 0x2D], ?_⟩
    rw [endLine, Text.utf8_append, List.append_assoc]
    rfl

theorem skipPreamble?_beginMark (rest : Bytes) : skipPreamble? (beginMark ++ rest) = some (beginMark ++ rest) :=
  if_pos (List.isPrefixOf_iff_prefix.mpr (List.prefix_append _ _))

theorem dropPrefix?_append (start rest : Bytes) : dropPrefix? start (start ++ rest) = some rest := by
  rw [dropPrefix?, if_pos (List.isPrefixOf_iff_prefix.mpr (List.prefix_append _ _)), List.drop_left]

theorem dropSuffix?_append (front tail : Bytes) : dropSuffix? tail (front ++ tail) = some front := by
  rw [dropSuffix?, if_pos (List.isSuffixOf_iff_suffix.mpr (List.suffix_append _ _))]
  simp

/-- A text with content is read as what it was written for. -/
theorem decode?_text (label : String) {content : Bytes} (h : content ≠ []) : decode? label (text label content) = some content := by
  obtain ⟨front, last, hlast, hlines, hjoin⟩ := joinLines_lines (Base64.encodeBytes_ne_nil h) (Nat.le_refl _)
    fun b hb => isSign_of_visible (Base64.visible_encodeBytes content b hb)
  obtain ⟨-, tail, htail⟩ := endLine_dashes label
  have hend : ∀ body, (beforeLineEnd? (body ++ endLine label)).getD (body ++ endLine label) = body ++ endLine label := by
    intro body
    rw [htail, ← List.append_assoc, beforeLineEnd?_sign (by decide) (by decide), Option.getD_none]
  have htext : text label content = beginMark ++ (Text.utf8 label ++ dashes ++ lf ::
      (front ++ [last] ++ [lf] ++ endLine label)) := by
    rw [text, Bytes.chunks, hlines]
    simp
  have hbegin : dropPrefix? (beginMark ++ Text.utf8 label ++ dashes) (text label content)
      = some (lf :: (front ++ [last] ++ [lf] ++ endLine label)) := by
    rw [htext, ← List.append_assoc, ← List.append_assoc, dropPrefix?_append]
  rw [decode?, htext, skipPreamble?_beginMark, ← htext]
  simp only [Option.bind_eq_bind, Option.bind_some, hbegin]
  have hafter : afterLineEnd? (lf :: (front ++ [last] ++ [lf] ++ endLine label))
      = some (front ++ [last] ++ [lf] ++ endLine label) := rfl
  have hjoined : joinLines (front ++ [last]) = some (Base64.encodeBytes content) := hjoin _ (Nat.lt_succ_self _)
  simp only [hafter, Option.bind_some, hend, dropSuffix?_append, beforeLineEnd?_lf hlast.2, hjoined,
    Base64.decode_encodeBytes]
  rfl

/-! ## The text in a string -/

theorem mem_of_mem_chunksWithin {size fuel : Nat} {bs line : Bytes} {b : UInt8}
    (h : line ∈ Bytes.chunksWithin size fuel bs) (hb : b ∈ line) : b ∈ bs := by
  induction fuel generalizing bs with
  | zero => cases h
  | succ fuel ih =>
    cases bs with
    | nil => cases h
    | cons c bs =>
      rcases List.mem_cons.mp h with rfl | h
      · exact List.mem_of_mem_take hb
      · exact List.mem_of_mem_drop (ih h)

/-- What holds for the symbols of base64, for the padding and for the ends of lines, holds for the lines. -/
theorem forall_lines {P : UInt8 → Prop} (hsymbol : ∀ n < 64, P (Base64.symbol n)) (hpad : P Base64.pad) (hlf : P lf)
    (content : Bytes) : ∀ b ∈ (Bytes.chunks lineWidth (Base64.encodeBytes content)).flatMap (· ++ [lf]), P b := by
  intro b hb
  obtain ⟨line, hline, hb⟩ := List.mem_flatMap.mp hb
  rcases List.mem_append.mp hb with hb | hb
  · exact Base64.forall_encodeBytes hsymbol hpad content b (mem_of_mem_chunksWithin hline hb)
  · exact List.mem_singleton.mp hb ▸ hlf

/-- Where the label is plain ASCII, so is the text. -/
theorem isAscii_text {label : String} (h : Base64.IsAscii (Text.utf8 label)) (content : Bytes) :
    Base64.IsAscii (text label content) := by
  have hlines := forall_lines (P := fun b => b.toNat < 128) (by decide) (by decide) (by decide) content
  simp only [text, endLine, Text.utf8_append, Base64.isAscii_append]
  exact ⟨⟨⟨⟨⟨by decide, h⟩, by decide⟩, by decide⟩, hlines⟩, ⟨by decide, h⟩, by decide⟩

/-! ## Several documents -/

/-- The texts of documents, each behind the end of the line before it. -/
def pieces (label : String) (content : Bytes) (contents : List Bytes) : List Bytes :=
  text label content :: contents.map (lf :: text label ·)

/-- Documents that are written one after the other are those texts, and the end of the last line. -/
theorem flatMap_encode (label : String) (content : Bytes) (contents : List Bytes) :
    (content :: contents).flatMap (encode label) = (pieces label content contents).flatten ++ [lf] := by
  induction contents generalizing content with
  | nil => simp [pieces, encode_eq]
  | cons next contents ih =>
    rw [List.flatMap_cons, ih, encode_eq, pieces, pieces]
    simp

theorem text_dashes (label : String) (content : Bytes) : ∃ middle, text label content = 0x2D :: middle ++ [0x2D] := by
  obtain ⟨-, tail, htail⟩ := endLine_dashes label
  refine ⟨Text.utf8 "----BEGIN " ++ Text.utf8 label ++ dashes ++ [lf]
    ++ (Bytes.chunks lineWidth (Base64.encodeBytes content)).flatMap (· ++ [lf]) ++ tail, ?_⟩
  rw [text, htail, ← List.append_assoc]
  rfl

theorem pieces_dashes (label : String) (content : Bytes) (contents : List Bytes) :
    ∃ middle, (pieces label content contents).flatten = 0x2D :: middle ++ [0x2D] := by
  obtain ⟨middle, hmiddle⟩ := text_dashes label content
  rcases List.eq_nil_or_concat contents with rfl | ⟨others, last, rfl⟩
  · exact ⟨middle, by simp [pieces, hmiddle]⟩
  · obtain ⟨lastMiddle, hlast⟩ := text_dashes label last
    refine ⟨middle ++ [0x2D] ++ (others.map (lf :: text label ·)).flatten ++ lf :: 0x2D :: lastMiddle, ?_⟩
    simp [pieces, hmiddle, hlast]

theorem isAscii_flatMap_encode {label : String} (h : Base64.IsAscii (Text.utf8 label)) (contents : List Bytes) :
    Base64.IsAscii (contents.flatMap (encode label)) := by
  intro b hb
  obtain ⟨content, -, hb⟩ := List.mem_flatMap.mp hb
  rcases List.mem_append.mp (encode_eq label content ▸ hb) with hb | hb
  · exact isAscii_text h content b hb
  · exact List.mem_singleton.mp hb ▸ by decide

/-- Of documents that stand in a string the end of the last line is trimmed. -/
theorem utf8_trim_encode {label : String} (h : Base64.IsAscii (Text.utf8 label)) (content : Bytes) (contents : List Bytes) :
    Text.utf8 (Text.trim (Text.ofAscii ((content :: contents).flatMap (encode label))))
      = (pieces label content contents).flatten := by
  have hascii := isAscii_flatMap_encode h (content :: contents)
  obtain ⟨middle, hmiddle⟩ := pieces_dashes label content contents
  rw [flatMap_encode, Base64.isAscii_append] at hascii
  rw [flatMap_encode, hmiddle, Text.trim_ofAscii_line (by decide) (by decide), ← hmiddle, Base64.utf8_ofAscii hascii.1]

/-- The end of a line before the begin line is passed over. -/
theorem decode?_lf_text (label : String) {content : Bytes} (h : content ≠ []) :
    decode? label (lf :: text label content) = some content := by
  have hbegin : ∃ rest, text label content = beginMark ++ rest := ⟨_, by simp only [text, List.append_assoc]; rfl⟩
  obtain ⟨rest, hrest⟩ := hbegin
  have hpassed : skipPreamble? (lf :: text label content) = skipPreamble? (text label content) := by
    have hlf : beginMark.isPrefixOf (lf :: text label content) = false := by rfl
    rw [hrest, skipPreamble?_beginMark, ← hrest, skipPreamble?, hlf, if_neg Bool.false_ne_true, fromBeginMark?,
      if_neg (by decide), if_pos ⟨.inl rfl, hrest ▸ List.isPrefixOf_iff_prefix.mpr (List.prefix_append _ _)⟩]
  rw [decode?, hpassed]
  exact decode?_text label h

/-- Each of the texts is read as what it was written for. -/
theorem mapM_decode?_pieces (label : String) {content : Bytes} {contents : List Bytes}
    (h : ∀ c ∈ content :: contents, c ≠ []) :
    (pieces label content contents).mapM (decode? label) = some (content :: contents) := by
  obtain ⟨hcontent, hcontents⟩ := List.forall_mem_cons.mp h
  have hrest : (contents.map (lf :: text label ·)).mapM (decode? label) = some contents := by
    induction contents with
    | nil => rfl
    | cons next contents ih =>
      obtain ⟨hnext, hothers⟩ := List.forall_mem_cons.mp hcontents
      rw [List.map_cons, List.mapM_cons, decode?_lf_text label hnext,
        ih (List.forall_mem_cons.mpr ⟨hcontent, hothers⟩) hothers]
      rfl
  rw [pieces, List.mapM_cons, decode?_text label hcontent, hrest]
  rfl

/-- The mark does not start inside the text, whatever comes after it. -/
def isClearOf (mark : Bytes) : Bytes → Bool
  | [] => true
  | b :: rest => !(b :: rest).isPrefixOf mark && !mark.isPrefixOf (b :: rest) && isClearOf mark rest

theorem cutAfter?_append {mark front : Bytes} (h : isClearOf mark front = true) (rest : Bytes) :
    cutAfter? mark (front ++ rest) = (cutAfter? mark rest).map fun p => (front ++ p.1, p.2) := by
  induction front with
  | nil => simp
  | cons b front ih =>
    simp only [isClearOf, Bool.and_eq_true, Bool.not_eq_true', ← Bool.not_eq_true, List.isPrefixOf_iff_prefix] at h
    obtain ⟨⟨hfront, hmark⟩, hclear⟩ := h
    have hnot : ¬ mark.isPrefixOf (b :: (front ++ rest)) = true := by
      rw [List.isPrefixOf_iff_prefix, ← List.cons_append]
      intro hprefix
      exact (List.prefix_or_prefix_of_prefix hprefix (List.prefix_append _ _)).elim hmark hfront
    rw [List.cons_append, cutAfter?, if_neg hnot, ih hclear, Option.map_map]
    rfl

theorem cutAfter?_mark {mark : Bytes} (h : mark ≠ []) (rest : Bytes) : cutAfter? mark (mark ++ rest) = some (mark, rest) := by
  obtain ⟨m, back, rfl⟩ := List.exists_cons_of_ne_nil h
  rw [List.cons_append, cutAfter?, ← List.cons_append, if_pos (List.isPrefixOf_iff_prefix.mpr (List.prefix_append _ _)),
    List.take_left, List.drop_left]

theorem isClearOf_of_ne {m : UInt8} {mark front : Bytes} (h : ∀ b ∈ front, b ≠ m) : isClearOf (m :: mark) front = true := by
  induction front with
  | nil => rfl
  | cons b front ih =>
    obtain ⟨hb, hfront⟩ := List.forall_mem_cons.mp h
    simp [isClearOf, List.isPrefixOf, ih hfront, hb, Ne.symm hb]

/-- A mark that starts with a dash does not start inside lines of base64. -/
theorem isClearOf_lines (mark content : Bytes) :
    isClearOf (0x2D :: mark) ((Bytes.chunks lineWidth (Base64.encodeBytes content)).flatMap (· ++ [lf])) = true :=
  isClearOf_of_ne (forall_lines (by decide) (by decide) (by decide) content)

/-- A piece of a text: it ends where the mark first does, whatever comes after it. -/
def IsPiece (mark piece : Bytes) : Prop := 1 < piece.length ∧ ∀ rest, cutAfter? mark (piece ++ rest) = some (piece, rest)

theorem length_le_flatten {pieces : List Bytes} (h : ∀ p ∈ pieces, 1 < p.length) : pieces.length ≤ pieces.flatten.length := by
  induction pieces with
  | nil => exact Nat.le_refl _
  | cons piece pieces ih =>
    obtain ⟨hpiece, hpieces⟩ := List.forall_mem_cons.mp h
    have hrest := ih hpieces
    rw [List.flatten_cons, List.length_append, List.length_cons]
    omega

/-- A text that is made of pieces is cut into them. -/
theorem splitWithin_flatten {mark : Bytes} {fuel : Nat} {pieces : List Bytes} (h : ∀ p ∈ pieces, IsPiece mark p)
    (hne : pieces ≠ []) (hfuel : pieces.length ≤ fuel) : splitWithin mark fuel pieces.flatten = some pieces := by
  induction pieces generalizing fuel with
  | nil => exact absurd rfl hne
  | cons piece pieces ih =>
    obtain ⟨⟨hlong, hcut⟩, hpieces⟩ := List.forall_mem_cons.mp h
    obtain ⟨fuel, rfl⟩ := Nat.exists_eq_succ_of_ne_zero (Nat.ne_of_gt (Nat.lt_of_lt_of_le (Nat.succ_pos _) hfuel))
    have hlength : ¬ (piece ++ pieces.flatten).length ≤ 1 := by
      rw [List.length_append]
      omega
    rw [List.flatten_cons, splitWithin, if_neg hlength]
    simp only [hcut]
    cases pieces with
    | nil => rfl
    | cons next pieces =>
      have hrest : ¬ (next :: pieces).flatten.isEmpty = true := by
        have hnext := (hpieces next List.mem_cons_self).1
        rw [List.isEmpty_iff, List.flatten_cons]
        exact List.append_ne_nil_of_left_ne_nil (List.ne_nil_of_length_pos (by omega)) _
      rw [if_neg hrest, ih hpieces (List.cons_ne_nil _ _) (Nat.le_of_succ_le_succ hfuel), Option.map_some]

section

variable {label : String} (hclear : isClearOf (endLine label) (beginMark ++ Text.utf8 label ++ dashes ++ [lf]) = true)

include hclear

/-- Where the begin line is clear of the end line, the text of a document is a piece. -/
theorem isPiece_text (content : Bytes) : IsPiece (endLine label) (text label content) := by
  obtain ⟨⟨back, hback⟩, -⟩ := endLine_dashes label
  have hlines : isClearOf (endLine label) ((Bytes.chunks lineWidth (Base64.encodeBytes content)).flatMap (· ++ [lf])) = true :=
    hback ▸ isClearOf_lines back content
  constructor
  · simp only [text, List.length_append]
    have : beginMark.length = 11 := by decide
    omega
  · intro rest
    rw [text, List.append_assoc, List.append_assoc, cutAfter?_append hclear, cutAfter?_append hlines,
      cutAfter?_mark (hback ▸ List.cons_ne_nil _ _), Option.map_some, Option.map_some]
    simp only [List.append_assoc]

/-- So is such a text behind the end of a line. -/
theorem isPiece_lf_text (content : Bytes) : IsPiece (endLine label) (lf :: text label content) := by
  obtain ⟨⟨back, hback⟩, -⟩ := endLine_dashes label
  have hlf : isClearOf (endLine label) [lf] = true := hback ▸ isClearOf_of_ne (List.forall_mem_singleton.mpr (by decide))
  obtain ⟨hlong, hcut⟩ := isPiece_text hclear content
  constructor
  · rw [List.length_cons]
    omega
  · intro rest
    have hfront := cutAfter?_append hlf (text label content ++ rest)
    rwa [hcut, Option.map_some] at hfront

/-- A text of documents is cut into them. -/
theorem splitAfter_pieces (content : Bytes) (contents : List Bytes) :
    splitAfter label (pieces label content contents).flatten = some (pieces label content contents) := by
  have hpieces : ∀ p ∈ pieces label content contents, IsPiece (endLine label) p := by
    refine List.forall_mem_cons.mpr ⟨isPiece_text hclear content, fun p hp => ?_⟩
    obtain ⟨other, -, rfl⟩ := List.mem_map.mp hp
    exact isPiece_lf_text hclear other
  have hfuel := Nat.le_succ_of_le (length_le_flatten fun p hp => (hpieces p hp).1)
  have hne : ¬ (pieces label content contents).flatten.isEmpty = true := by
    obtain ⟨middle, hmiddle⟩ := pieces_dashes label content contents
    rw [hmiddle]
    exact Bool.false_ne_true
  rw [splitAfter, if_neg hne, splitWithin_flatten hpieces (List.cons_ne_nil _ _) hfuel]

end

/-! ## Where documents start -/

/-- The mark stands in the text behind the front. -/
def StandsBehind (mark text front : Bytes) : Prop := front ++ mark <+: text

/-- The mark does not start inside the piece: behind it, it stands where it stands in the rest. -/
def Passes (mark piece : Bytes) : Prop := ∀ rest front,
  StandsBehind mark (piece ++ rest) front ↔ ∃ front', front = piece ++ front' ∧ StandsBehind mark rest front'

theorem Passes.append {mark a b : Bytes} (ha : Passes mark a) (hb : Passes mark b) : Passes mark (a ++ b) := by
  intro rest front
  rw [List.append_assoc, ha]
  constructor
  · rintro ⟨front, rfl, h⟩
    obtain ⟨front', rfl, hrest⟩ := (hb rest front).mp h
    exact ⟨front', (List.append_assoc _ _ _).symm, hrest⟩
  · rintro ⟨front', rfl, h⟩
    exact ⟨b ++ front', List.append_assoc _ _ _, (hb rest _).mpr ⟨front', rfl, h⟩⟩

theorem passes_of_isClearOf {mark piece : Bytes} (h : isClearOf mark piece = true) : Passes mark piece := by
  intro rest front
  induction piece generalizing front with
  | nil => simp
  | cons b piece ih =>
    simp only [isClearOf, Bool.and_eq_true, Bool.not_eq_true', ← Bool.not_eq_true, List.isPrefixOf_iff_prefix] at h
    obtain ⟨⟨hpiece, hmark⟩, hclear⟩ := h
    cases front with
    | nil =>
      refine iff_of_false (fun hprefix => ?_) nofun
      exact (List.prefix_or_prefix_of_prefix hprefix (List.prefix_append _ _)).elim hmark hpiece
    | cons a front =>
      rw [StandsBehind, List.cons_append, List.cons_append, List.cons_prefix_cons, ← StandsBehind, ih hclear]
      simp [and_assoc]

section

variable {label : String}
  (hbegin : isClearOf beginMark (beginMark.drop 1 ++ Text.utf8 label ++ dashes ++ [lf]) = true)
  (hend : isClearOf beginMark (endLine label ++ [lf]) = true)

include hbegin hend

/-- In the text of a document and what comes after it a begin mark stands at the start, and behind the document. -/
theorem standsBehind_encode_iff (content rest front : Bytes) :
    StandsBehind beginMark (encode label content ++ rest) front ↔
      front = [] ∨ ∃ front', front = encode label content ++ front' ∧ StandsBehind beginMark rest front' := by
  have hlines : Passes beginMark ((Bytes.chunks lineWidth (Base64.encodeBytes content)).flatMap (· ++ [lf])) :=
    passes_of_isClearOf (isClearOf_lines _ content)
  have hpasses := ((passes_of_isClearOf hbegin).append hlines).append (passes_of_isClearOf hend)
  have hencode : encode label content = 0x2D :: (beginMark.drop 1 ++ Text.utf8 label ++ dashes ++ [lf]
      ++ (Bytes.chunks lineWidth (Base64.encodeBytes content)).flatMap (· ++ [lf]) ++ (endLine label ++ [lf])) := by
    rw [encode_eq, text, List.append_assoc _ (endLine label)]
    rfl
  cases front with
  | nil => exact iff_of_true ⟨_, by simp only [encode_eq, text, List.append_assoc]; rfl⟩ (.inl rfl)
  | cons a front =>
    rw [StandsBehind, hencode, List.cons_append, List.cons_append, List.cons_prefix_cons, ← StandsBehind, hpasses]
    simp [and_assoc]

/-- Among documents that are written one after the other, a begin mark stands where one of them starts. -/
theorem beginMark_iff (contents : List Bytes) (front : Bytes) :
    StandsBehind beginMark (contents.flatMap (encode label)) front ↔
      ∃ before after, contents = before ++ after ∧ after ≠ [] ∧ front = before.flatMap (encode label) := by
  induction contents generalizing front with
  | nil =>
    refine iff_of_false (fun h => ?_) ?_
    · exact absurd (List.append_eq_nil_iff.mp (List.prefix_nil.mp h)).2 (by decide)
    · rintro ⟨before, after, hcontents, hafter, -⟩
      exact hafter (List.append_eq_nil_iff.mp hcontents.symm).2
  | cons content contents ih =>
    rw [List.flatMap_cons, standsBehind_encode_iff hbegin hend]
    constructor
    · rintro (rfl | ⟨front', rfl, h⟩)
      · exact ⟨[], content :: contents, rfl, List.cons_ne_nil _ _, rfl⟩
      · obtain ⟨before, after, rfl, hafter, rfl⟩ := (ih front').mp h
        exact ⟨content :: before, after, rfl, hafter, List.flatMap_cons.symm⟩
    · rintro ⟨before, after, hcontents, hafter, rfl⟩
      cases before with
      | nil => exact .inl rfl
      | cons first before =>
        obtain ⟨rfl, rfl⟩ := List.cons.inj hcontents
        exact .inr ⟨before.flatMap (encode label), List.flatMap_cons, (ih _).mpr ⟨before, after, rfl, hafter, rfl⟩⟩

end

end Pem

end PolicySeal
