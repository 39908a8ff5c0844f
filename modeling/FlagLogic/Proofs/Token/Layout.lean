import FlagLogic.Proofs.Token.Spans

/-!
Texts laid out anew. `Relaid` says that a text comes from another one with these tokens: gaps become
other gaps, where none may come or go, and keywords are spelled in other letters of the same upper
case. Main statement: such a text is scanned to the same lexemes, up to the spelling of literals
(`ReadAs.relaid`).
-/

namespace FlagLogic

open Text Lump

/-- Another gap, which is empty where the first one is. -/
structure SameGap (gap gap' : List Char) : Prop where
  blank : ∀ c ∈ gap', isBlank c
  empty : gap' = [] ↔ gap = []

instance (gap gap' : List Char) : Decidable (SameGap gap gap') :=
  decidable_of_iff (gap'.all isBlank ∧ (gap' = [] ↔ gap = []))
    ⟨fun ⟨hb, he⟩ => ⟨List.all_eq_true.mp hb, he⟩, fun h => ⟨List.all_eq_true.mpr h.blank, h.empty⟩⟩

namespace Lexeme

/-- Other characters for the characters of a lexeme. The keywords of connectives, negations and
literals may be spelled in other letters of the same upper case. -/
inductive Respells : Lexeme → (span span' : List Char) → Prop
  | same (x : Lexeme) (span : List Char) : Respells x span span
  | connective {c : Connective} {span span' : List Char} (upper : upper span' = upper span) :
      Respells (.connective c) span span'
  | negation {span span' : List Char} (upper : upper span' = upper span) :
      Respells .negation span span'
  | literal {b : Bool} {s : String} {span span' : List Char} (upper : upper span' = upper span) :
      Respells (.literal b s) span span'

/-- A lexeme that is spelled anew is a word. -/
theorem Respells.eq_or_word {x : Lexeme} {span span' : List Char} (h : x.Respells span span')
    (hspells : x.Spells span) : span' = span ∨ ∀ c ∈ span, isWordChar c := by
  cases h with
  | same => exact .inl rfl
  | connective =>
    cases hspells with
    | connective hspells => exact .inr (isWordChar_of_connective hspells).2
  | negation =>
    cases hspells with
    | negation hspells => exact .inr (isWordChar_of_negation hspells).2
  | literal =>
    cases hspells with
    | literal hspells => exact .inr (isWordChar_of_literal hspells).2

/-- The lexeme with the canonical spelling of its keyword. -/
def canonical : Lexeme → Lexeme
  | literal b _ => literal b (literalKeyword b)
  | x => x

end Lexeme

/-- The text that begins at an offset and has these tokens is laid out anew. -/
inductive Relaid : (start : Nat) → List Char → List Token → List Char → Prop
  | last {start : Nat} {gap gap' : List Char} (gaps : SameGap gap gap') : Relaid start gap [] gap'
  | token {start : Nat} {gap span rest gap' span' rest' : List Char} {t : Token} {ts : List Token}
      (position : t.position = start + gap.length) (width : t.lexeme.width = span.length)
      (gaps : SameGap gap gap') (spans : t.lexeme.Respells span span')
      (next : Relaid t.stop rest ts rest') :
      Relaid start (gap ++ span ++ rest) (t :: ts) (gap' ++ span' ++ rest')

/-! ## Pieces -/

/-- A piece is laid out anew: it is blank, or its content is spelled anew between other gaps. -/
inductive RelaidPiece : (piece piece' : List Char) → Prop
  | blank {gap gap' : List Char} (blank : ∀ c ∈ gap, isBlank c) (gaps : SameGap gap gap') :
      RelaidPiece gap gap'
  | content {before span after before' span' after' : List Char}
      (blankBefore : ∀ c ∈ before, isBlank c) (blankAfter : ∀ c ∈ after, isBlank c)
      (stripped : strip span = span) (nonempty : span ≠ []) (gapsBefore : SameGap before before')
      (spans : (Lexeme.ofText span).Respells span span') (gapsAfter : SameGap after after') :
      RelaidPiece (before ++ span ++ after) (before' ++ span' ++ after')

/-- The content of a piece stays, unless it spells a literal. -/
theorem respells_ofText {span span' : List Char}
    (h : (Lexeme.ofText span).Respells span span') :
    span' = span ∨ ∃ b, literalOfText? span = some b ∧ upper span' = (literalKeyword b).toList := by
  cases hlit : literalOfText? span with
  | none =>
    rw [Lexeme.ofText, hlit] at h
    cases h
    exact .inl rfl
  | some b =>
    rw [Lexeme.ofText, hlit] at h
    cases h with
    | same => exact .inl rfl
    | literal hupper =>
      exact .inr ⟨b, rfl, hupper.trans (literalOfText?_eq_some_iff.mp hlit)⟩

theorem eq_nil_of_blank_of_word {cs : List Char} (hb : ∀ c ∈ cs, isBlank c)
    (hword : ∀ c ∈ cs, isWordChar c) : cs = [] := by
  refine List.eq_nil_iff_forall_not_mem.mpr fun c hc => ?_
  have hblank := hb c hc
  rw [isBlank_of_isWordChar (hword c hc)] at hblank
  cases hblank

/-- There are no blanks behind a word that ends the text. -/
theorem blanks_eq_nil_of_suffix {word cs bs : List Char} (hb : ∀ c ∈ bs, isBlank c)
    (hword : ∀ c ∈ word, isWordChar c) (hne : word ≠ []) (h : word <:+ cs ++ bs) : bs = [] := by
  obtain ⟨front, heq⟩ := h
  rcases List.append_eq_append_iff.mp heq with ⟨more, -, rfl⟩ | ⟨more, -, rfl⟩
  · exact eq_nil_of_blank_of_word hb fun c hc => hword c (List.mem_append_right _ hc)
  · exact absurd (eq_nil_of_blank_of_word (fun c hc => hb c (List.mem_append_right _ hc)) hword) hne

/-- A word at the end of a text stands behind the blanks that the text starts with. -/
theorem suffix_of_blanks_append {word bs cs : List Char} (hb : ∀ c ∈ bs, isBlank c)
    (hword : ∀ c ∈ word, isWordChar c) (h : word <:+ bs ++ cs) : word <:+ cs := by
  obtain ⟨front, heq⟩ := h
  rcases List.append_eq_append_iff.mp heq with ⟨more, rfl, rfl⟩ | ⟨more, -, rfl⟩
  · have hmore : more = [] := eq_nil_of_blank_of_word
      (fun c hc => hb c (List.mem_append_right _ hc)) fun c hc => hword c (List.mem_append_left _ hc)
    rw [hmore]
    exact List.suffix_refl cs
  · exact List.suffix_append more word

theorem pieceLexemes_padded {before span after : List Char} (hb : ∀ c ∈ before, isBlank c)
    (ha : ∀ c ∈ after, isBlank c) (hspan : strip span = span) (hne : span ≠ []) :
    pieceLexemes (before ++ span ++ after) = [Lexeme.ofText span] := by
  rw [pieceLexemes, strip_append_blanks _ ha, strip_blanks_append hb, hspan, if_neg hne]

/-- The led words of a text with blanks around it are all its words, if there are blanks in front. -/
theorem ledWords_padded {before after : List Char} (hb : ∀ c ∈ before, isBlank c)
    (ha : ∀ c ∈ after, isBlank c) (span : List Char) :
    ledWords (before ++ span ++ after) = if before = [] then ledWords span else words span := by
  rw [ledWords_append_of_blank _ ha]
  split
  · next hnil => rw [hnil, List.nil_append]
  · next hne => exact ledWords_append_blanks [] hb hne span

namespace RelaidPiece

variable {piece piece' : List Char} (h : RelaidPiece piece piece')
include h

/-- The piece has the same lexeme, up to the spelling of a literal. -/
theorem lexemes :
    (pieceLexemes piece').map .canonical = (pieceLexemes piece).map Lexeme.canonical := by
  cases h with
  | blank hblank hgaps =>
    have hnil : ∀ {cs : List Char}, (∀ c ∈ cs, isBlank c) → pieceLexemes cs = [] := fun hcs =>
      if_pos (strip_append_blanks [] hcs)
    rw [hnil hblank, hnil hgaps.blank]
  | @content before span after before' span' after' hb ha hspan hne hgb hspans hga =>
    rw [pieceLexemes_padded hb ha hspan hne]
    rcases respells_ofText hspans with rfl | ⟨b, hlit, hspells⟩
    · rw [pieceLexemes_padded hgb.blank hga.blank hspan hne]
    · obtain ⟨hne', hword⟩ := isWordChar_of_literal hspells
      have hstrip : strip span' = span' := strip_eq_self_iff.mpr
        ⟨fun c hc => isBlank_of_isWordChar (hword c (List.mem_of_head? hc)),
          fun c hc => isBlank_of_isWordChar (hword c (List.mem_of_getLast? hc))⟩
      rw [pieceLexemes_padded hgb.blank hga.blank hstrip hne', Lexeme.ofText, Lexeme.ofText, hlit,
        literalOfText?_eq_some_iff.mpr hspells]
      rfl

theorem plain (hplain : Plain piece) : Plain piece' := by
  cases h with
  | blank _ hgaps => exact Plain.nil.append_blanks hgaps.blank
  | @content before span after before' span' after' hb ha _ _ hgb hspans hga =>
    rcases respells_ofText hspans with rfl | ⟨b, -, hspells⟩
    · refine ⟨fun c hc => ?_, fun w hw => hplain.noConnective w ?_⟩
      · simp only [List.mem_append] at hc
        rcases hc with (hc | hc) | hc
        · exact isParen_of_isBlank (hgb.blank c hc)
        · exact hplain.noParen c (by simp [hc])
        · exact isParen_of_isBlank (hga.blank c hc)
      · rw [ledWords_padded hgb.blank hga.blank] at hw
        rw [ledWords_padded hb ha]
        simpa only [hgb.empty] using hw
    · have hnone : Connective.ofWord? span' = none := by
        rw [Connective.ofWord?, hspells]
        cases b <;> rfl
      have hword := (isWordChar_of_literal hspells).2
      exact (Plain.blanks_append_word hgb.blank hword hnone).append_blanks hga.blank

/-- The piece does not come to end in `NOT`. -/
theorem noNot (hno : beforeNot? piece = none) : beforeNot? piece' = none := by
  rw [beforeNot?_eq_none_iff] at hno ⊢
  intro word hsuffix hspells
  obtain ⟨hne, hword⟩ := isWordChar_of_negation hspells
  cases h with
  | blank _ hgaps =>
    have hsuffix : word <:+ [] ++ piece' := hsuffix
    rw [blanks_eq_nil_of_suffix hgaps.blank hword hne hsuffix] at hsuffix
    exact hne (List.suffix_nil.mp hsuffix)
  | @content before span after before' span' after' _ _ _ _ hgb hspans hga =>
    -- the word is the end of the content
    have hafter := blanks_eq_nil_of_suffix hga.blank hword hne hsuffix
    rw [hafter, List.append_nil] at hsuffix
    rw [hga.empty.mp hafter, List.append_nil] at hno
    have hend := suffix_of_blanks_append hgb.blank hword hsuffix
    rcases respells_ofText hspans with rfl | ⟨b, -, hliteral⟩
    · exact hno word (hend.trans (List.suffix_append before span')) hspells
    · -- no literal ends in `NOT`
      obtain ⟨front, rfl⟩ := hend
      have hsuffix : negationKeyword.toList <:+ (literalKeyword b).toList := by
        rw [← hliteral, upper_append, hspells]
        exact List.suffix_append ..
      cases b <;> revert hsuffix <;> decide

/-- A blank at the end of the piece stays, or is another one. -/
theorem endsBlank (hlast : ∃ b ∈ piece.getLast?, isBlank b) :
    ∃ b ∈ piece'.getLast?, isBlank b := by
  obtain ⟨b, hmem, hblank⟩ := hlast
  cases h with
  | blank _ hgaps =>
    refine getLast?_append_blanks [] hgaps.blank fun hnil => ?_
    rw [hgaps.empty.mp hnil] at hmem
    cases hmem
  | @content before span after before' span' after' _ _ hspan hne _ _ hga =>
    refine getLast?_append_blanks _ hga.blank fun hnil => ?_
    rw [hga.empty.mp hnil, List.append_nil, List.getLast?_append_of_ne_nil _ hne] at hmem
    rw [(strip_eq_self_iff.mp hspan).2 b hmem] at hblank
    cases hblank

end RelaidPiece

/-! ## Token by token -/

namespace Relaid

variable {start : Nat} {piece mark rest cs' : List Char} {x : Lexeme} {ts : List Token}

/-- The new text is put together like the first one. -/
theorem exists_token (gap span : List Char)
    (h : Relaid start (gap ++ span ++ rest) (⟨x, start + gap.length⟩ :: ts) cs')
    (hwidth : x.width = span.length) : ∃ gap' span' rest', cs' = gap' ++ span' ++ rest'
      ∧ SameGap gap gap' ∧ x.Respells span span'
      ∧ Relaid (start + gap.length + span.length) rest ts rest' := by
  generalize hcs : gap ++ span ++ rest = cs at h
  cases h with
  | token position width gaps spans next =>
    rw [List.append_assoc, List.append_assoc] at hcs
    obtain ⟨rfl, htail⟩ := List.append_inj hcs (Nat.add_left_cancel position)
    obtain ⟨rfl, rfl⟩ := List.append_inj htail (hwidth.symm.trans width)
    rw [Token.stop, hwidth] at next
    exact ⟨_, _, _, rfl, gaps, spans, next⟩

/-- A piece is laid out anew up to the blanks at its end, which belong to the gap behind it. -/
theorem exists_front
    (h : Relaid start (piece ++ rest) ((Token.ofPiece? start piece).toList ++ ts) cs') :
    ∃ front after front' rest', piece = front ++ after ∧ cs' = front' ++ rest'
      ∧ (∀ {after'}, SameGap after after' → RelaidPiece piece (front' ++ after'))
      ∧ Relaid (start + front.length) (after ++ rest) ts rest' := by
  unfold Token.ofPiece? at h
  split at h
  · next hblank =>
    exact ⟨[], piece, [], cs', rfl, rfl, .blank (blank_of_strip_eq_nil hblank), h⟩
  · next hne =>
    obtain ⟨after, hpiece, hafter⟩ := strip_append piece
    have hwidth := (Lexeme.spells_ofText (strip piece)).length_eq.symm
    have hsplit : piece ++ rest
        = piece.takeWhile isBlank ++ strip piece ++ (after ++ rest) := by
      rw [← List.append_assoc, ← hpiece]
    rw [hsplit] at h
    obtain ⟨gap', span', rest', rfl, hgaps, hspans, hnext⟩ := h.exists_token _ _ hwidth
    rw [Nat.add_assoc, ← List.length_append] at hnext
    refine ⟨_, after, gap' ++ span', rest', hpiece, rfl, fun hga => ?_, hnext⟩
    have := RelaidPiece.content (fun c hc => isBlank_of_mem_takeWhile hc) hafter (strip_strip piece)
      hne hgaps hspans hga
    rwa [← hpiece] at this

/-- A piece and the mark behind it are laid out anew. -/
theorem exists_mark (h : Relaid start (piece ++ mark ++ rest)
      ((Token.ofPiece? start piece).toList ++ ⟨x, start + piece.length⟩ :: ts) cs')
    (hwidth : x.width = mark.length) : ∃ piece' mark' rest', cs' = piece' ++ mark' ++ rest'
      ∧ RelaidPiece piece piece' ∧ x.Respells mark mark'
      ∧ Relaid (start + piece.length + mark.length) rest ts rest' := by
  rw [List.append_assoc] at h
  obtain ⟨front, after, front', more', hpiece, rfl, hrelaid, hmore⟩ := h.exists_front
  have hlen : start + piece.length = start + front.length + after.length := by
    rw [hpiece, List.length_append, Nat.add_assoc]
  rw [hlen] at hmore ⊢
  rw [← List.append_assoc] at hmore
  obtain ⟨after', mark', rest', rfl, hgaps, hspans, hnext⟩ := hmore.exists_token _ _ hwidth
  refine ⟨front' ++ after', mark', rest', ?_, hrelaid hgaps, hspans, hnext⟩
  rw [List.append_assoc, List.append_assoc, List.append_assoc]

/-- A piece at the end of the text is laid out anew. -/
theorem last_piece (h : Relaid start piece (Token.ofPiece? start piece).toList cs') :
    RelaidPiece piece cs' := by
  have hnil : Relaid start (piece ++ []) ((Token.ofPiece? start piece).toList ++ []) cs' := by
    rwa [List.append_nil, List.append_nil]
  obtain ⟨front, after, front', more', -, rfl, hrelaid, hmore⟩ := hnil.exists_front
  rw [List.append_nil] at hmore
  cases hmore with
  | last gaps => exact hrelaid gaps

/-- A text that does not go on with the word before it does not do so when it is laid out anew. -/
theorem head?_of_laid {cs : List Char} (h : Relaid start cs ts cs') (hlaid : Laid start cs ts)
    (hhead : ∀ c ∈ cs.head?, isWordChar c = false) : ∀ c ∈ cs'.head?, isWordChar c = false := by
  cases hlaid with
  | last =>
    cases h with
    | last gaps => exact fun c hc => isWordChar_of_isBlank (gaps.blank c (List.mem_of_head? hc))
  | @token _ gap span rest x ts _ hspells hne _ =>
    obtain ⟨gap', span', rest', rfl, hgaps, hspans, -⟩ := h.exists_token _ _ hspells.length_eq.symm
    rw [List.append_assoc]
    by_cases hgap : gap' = []
    · -- the text starts with the first token, which is not a keyword
      obtain ⟨d, more, rfl⟩ := List.exists_cons_of_ne_nil hne
      rw [hgaps.empty.mp hgap] at hhead
      rw [hgap]
      rcases hspans.eq_or_word hspells with rfl | hword
      · exact hhead
      · have hd := hhead d rfl
        rw [hword d (List.mem_cons_self ..)] at hd
        cases hd
    · exact head?_blanks_append hgaps.blank hgap _

end Relaid

/-- What ends a piece ends it when both are laid out anew, and so is what is behind. -/
theorem Ends.relaid {piece mark rest piece' mark' rest' : List Char} {x : Lexeme}
    (h : Ends piece mark rest x) (hpiece : RelaidPiece piece piece') (hmark : x.Respells mark mark')
    (hrest : (∀ c ∈ rest.head?, isWordChar c = false) → ∀ c ∈ rest'.head?, isWordChar c = false) :
    Ends piece' mark' rest' x := by
  cases h with
  | opening hno =>
    cases hmark
    exact .opening (hpiece.noNot hno) rest'
  | closing =>
    cases hmark
    exact .closing rest'
  | connective hlast hspells hwhole =>
    cases hmark with
    | same => exact .connective (hpiece.endsBlank hlast) hspells (hrest hwhole)
    | connective hupper =>
      exact .connective (hpiece.endsBlank hlast) (hupper.trans hspells) (hrest hwhole)

/-- **Layout does not matter to the scanner.** A text that is laid out anew is scanned to the same
lexemes, up to the spelling of literals. -/
theorem ReadAs.relaid {start : Nat} {cs cs' : List Char} {ts : List Token} (h : ReadAs start cs ts)
    (hrelaid : Relaid start cs ts cs') : ∃ ls, Scanned [] (ofChars cs') ls
      ∧ ls.map Lexeme.canonical = (lexemes ts).map Lexeme.canonical := by
  induction h generalizing cs' with
  | @last start piece hplain =>
    have hpiece := hrelaid.last_piece
    refine ⟨_, scanned_last (hpiece.plain hplain), ?_⟩
    rw [lexemes_ofPiece?]
    exact hpiece.lexemes
  | @mark start piece mark rest x ts hplain hends hnext ih =>
    -- the mark depends on what is behind it, hence the head of the rest
    obtain ⟨piece', mark', rest', rfl, hpiece, hmark, hrest⟩ :=
      hrelaid.exists_mark hends.spells.2.length_eq.symm
    obtain ⟨ls, hls, heq⟩ := ih hrest
    have hends' := hends.relaid hpiece hmark (hrest.head?_of_laid hnext.laid)
    refine ⟨_, hends'.scanned (hpiece.plain hplain) hls, ?_⟩
    rw [lexemes_append, lexemes_ofPiece?, lexemes_cons, List.map_append, List.map_append,
      List.map_cons, List.map_cons, hpiece.lexemes, heq]
  | @negation start before word rest ts hblank hspells hnext ih =>
    obtain ⟨before', word', rest', rfl, hgaps, hword, hrest⟩ :=
      hrelaid.exists_token _ _ (Lexeme.Spells.negation hspells).length_eq.symm
    obtain ⟨gap', mark', more', rfl, hgap, hmark, hmore⟩ :=
      hrest.exists_token [] ['('] rfl
    obtain ⟨ls, hls, heq⟩ := ih hmore
    -- no gap may come between the negation and its parenthesis
    obtain rfl := hgap.empty.mpr rfl
    cases hmark
    have hspells' : upper word' = negationKeyword.toList := by
      cases hword with
      | same => exact hspells
      | negation hupper => exact hupper.trans hspells
    refine ⟨_, scanned_negation hgaps.blank hspells' hls, ?_⟩
    rw [lexemes_cons, lexemes_cons, List.map_cons, List.map_cons, List.map_cons, List.map_cons, heq]

end FlagLogic
