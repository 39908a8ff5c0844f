import FlagLogic.Proofs.Token.Reading

/-!
The spans of tokens. A token covers as many characters of the text as its lexeme has; `Laid` says
that a text is laid out as these tokens with blank gaps before, between and behind them. Main
statements: a text is laid out as its tokens (`laid_of_tokenize`), so that they cover it
(`covered_of_tokenize`): their spans stand in the text in source order and do not overlap, each
spells its token, and nothing but blanks is left out.
-/

namespace FlagLogic

open Text

namespace Lexeme

/-- The number of characters of the lexeme in a text. -/
def width : Lexeme → Nat
  | name text => text.length
  | literal _ spelling => spelling.length
  | connective c => c.keyword.length
  | negation => negationKeyword.length
  | opening | closing => 1
  | unknown _ => 0

/-- The characters of a lexeme in a text: a name or a literal verbatim, any other keyword in letters
of any case, or the parenthesis. -/
inductive Spells : Lexeme → List Char → Prop
  | name (s : String) : Spells (.name s) s.toList
  | literal {b : Bool} {s : String} (spells : upper s.toList = (literalKeyword b).toList) :
      Spells (.literal b s) s.toList
  | connective {c : Connective} {word : List Char} (spells : upper word = c.keyword.toList) :
      Spells (.connective c) word
  | negation {word : List Char} (spells : upper word = negationKeyword.toList) :
      Spells .negation word
  | opening : Spells .opening ['(']
  | closing : Spells .closing [')']

theorem Spells.length_eq {x : Lexeme} {span : List Char} (h : x.Spells span) :
    span.length = x.width := by
  cases h with
  | name s | literal => exact String.length_toList
  | @connective c _ hspells =>
    exact (length_of_upper hspells (by cases c <;> decide)).trans String.length_toList
  | negation hspells => exact (length_of_upper hspells (by decide)).trans String.length_toList
  | opening | closing => rfl

theorem spells_ofText (cs : List Char) : (ofText cs).Spells cs := by
  have hcontent : Content cs (ofText cs) := content_iff.mpr rfl
  have htext : (String.ofList cs).toList = cs := String.toList_ofList
  generalize ofText cs = x at hcontent
  cases hcontent with
  | literal b hspells =>
    have := Spells.literal (b := b) (s := String.ofList cs) (by rwa [htext])
    rwa [htext] at this
  | name =>
    have := Spells.name (String.ofList cs)
    rwa [htext] at this

end Lexeme

/-- The offset behind the last character of a token. -/
def Token.stop (t : Token) : Nat := t.position + t.lexeme.width

/-- The tokens cover the text. -/
structure Covered (cs : List Char) (ts : List Token) : Prop where
  /-- Each token has characters, and they are in the text. -/
  within : ∀ t ∈ ts, t.position < t.stop ∧ t.stop ≤ cs.length
  /-- A token starts behind all tokens before it. -/
  ordered : ts.Pairwise fun t u => t.stop ≤ u.position
  /-- The characters of a token spell it. -/
  spelled : ∀ t ∈ ts, t.lexeme.Spells (cs.extract t.position t.stop)
  /-- Each parenthesis is a token of its own. -/
  opening : ∀ i, cs[i]? = some '(' → ⟨.opening, i⟩ ∈ ts
  closing : ∀ i, cs[i]? = some ')' → ⟨.closing, i⟩ ∈ ts
  /-- What no token covers is blank. -/
  blank : ∀ i c, cs[i]? = some c → (∀ t ∈ ts, ¬(t.position ≤ i ∧ i < t.stop)) → isBlank c

/-- A text that begins at an offset is laid out as these tokens, with blank gaps between them. -/
inductive Laid : (start : Nat) → List Char → List Token → Prop
  | last {start : Nat} {gap : List Char} (blank : ∀ c ∈ gap, isBlank c) : Laid start gap []
  | token {start : Nat} {gap span rest : List Char} {x : Lexeme} {ts : List Token}
      (blank : ∀ c ∈ gap, isBlank c) (spells : x.Spells span) (nonempty : span ≠ [])
      (next : Laid (start + gap.length + span.length) rest ts) :
      Laid start (gap ++ span ++ rest) (⟨x, start + gap.length⟩ :: ts)

namespace Laid

variable {start : Nat} {cs gap rest : List Char} {ts : List Token}

/-- Blanks in front make the first gap longer. -/
theorem blanks (hgap : ∀ c ∈ gap, isBlank c) (h : Laid (start + gap.length) rest ts) :
    Laid start (gap ++ rest) ts := by
  cases h with
  | @last _ gap' hgap' => exact .last (List.forall_mem_append.mpr ⟨hgap, hgap'⟩)
  | @token _ gap' span more x us hgap' hspells hne hnext =>
    rw [List.append_assoc, ← List.append_assoc, ← List.append_assoc, Nat.add_assoc,
      ← List.length_append]
    rw [Nat.add_assoc start, ← List.length_append] at hnext
    exact .token (List.forall_mem_append.mpr ⟨hgap, hgap'⟩) hspells hne hnext

/-- A token with no gap before it. -/
theorem fused {span : List Char} {x : Lexeme} (hspells : x.Spells span) (hne : span ≠ [])
    (h : Laid (start + span.length) rest ts) : Laid start (span ++ rest) (⟨x, start⟩ :: ts) := by
  have hgap : ∀ c ∈ ([] : List Char), isBlank c := nofun
  exact .token hgap hspells hne h

/-- A piece of text is laid out as its token, if it is not blank. -/
theorem piece (cs : List Char) (h : Laid (start + cs.length) rest ts) :
    Laid start (cs ++ rest) ((Token.ofPiece? start cs).toList ++ ts) := by
  unfold Token.ofPiece?
  split
  · next hblank => exact h.blanks (blank_of_strip_eq_nil hblank)
  · next hne =>
    obtain ⟨after, hcs, hafter⟩ := strip_append cs
    have hspan := Lexeme.spells_ofText (strip cs)
    generalize strip cs = span at *
    have hrest : Laid (start + leadingBlanks cs + span.length) (after ++ rest) ts := by
      refine blanks hafter ?_
      rw [hcs, List.length_append, List.length_append] at h
      simpa only [leadingBlanks, Nat.add_assoc] using h
    have := token (fun c hc => isBlank_of_mem_takeWhile hc) hspan hne hrest
    rwa [← List.append_assoc, ← hcs] at this

end Laid

theorem Ends.spells {piece mark rest : List Char} {x : Lexeme} (h : Ends piece mark rest x) :
    mark ≠ [] ∧ x.Spells mark := by
  cases h with
  | opening => exact ⟨List.cons_ne_nil _ _, .opening⟩
  | closing => exact ⟨List.cons_ne_nil _ _, .closing⟩
  | connective _ hspells _ =>
    exact ⟨(isWordChar_of_connective hspells).1, .connective hspells⟩

theorem ReadAs.laid {start : Nat} {cs : List Char} {ts : List Token} (h : ReadAs start cs ts) :
    Laid start cs ts := by
  induction h with
  | @last start piece _ =>
    have hend : Laid (start + piece.length) [] [] := .last nofun
    have hpiece := hend.piece piece
    rwa [List.append_nil, List.append_nil] at hpiece
  | @mark start piece mark rest x ts _ hends _ ih =>
    obtain ⟨hne, hspells⟩ := hends.spells
    rw [List.append_assoc]
    exact .piece piece (.fused hspells hne ih)
  | @negation start before word rest ts hblank hspells _ ih =>
    refine .token hblank (.negation hspells) (isWordChar_of_negation hspells).1 ?_
    exact .fused .opening (List.cons_ne_nil _ _) ih

/-- A text is laid out as its tokens. -/
theorem laid_of_tokenize {text : String} {ts : List Token} (h : tokenize text = .ok ts) :
    Laid 0 text.toList ts :=
  (readAs_of_tokenize h).laid

/-! ## Spans in a text -/

namespace Laid

variable {start : Nat} {cs : List Char} {ts : List Token}

/-- The tokens stand in the text, none of them empty. -/
theorem within (h : Laid start cs ts) :
    ∀ t ∈ ts, start ≤ t.position ∧ t.position < t.stop ∧ t.stop ≤ start + cs.length := by
  induction h with
  | last => exact nofun
  | @token start gap span rest x ts _ hspells hne _ ih =>
    have hpos := List.length_pos_iff.mpr hne
    have hlen := hspells.length_eq
    simp only [List.length_append]
    refine List.forall_mem_cons.mpr ⟨?_, fun t ht => ?_⟩
    · simp only [Token.stop]
      omega
    · have := ih t ht
      omega

/-- A token starts behind all tokens before it. -/
theorem ordered (h : Laid start cs ts) : ts.Pairwise fun t u => t.stop ≤ u.position := by
  induction h with
  | last => exact .nil
  | token _ hspells _ hnext ih =>
    refine List.pairwise_cons.mpr ⟨fun u hu => ?_, ih⟩
    rw [Token.stop, ← hspells.length_eq]
    exact (hnext.within u hu).1

/-- In a text that goes on with these tokens, each is spelled by its characters. -/
theorem spelled {whole : List Char} (h : Laid start cs ts) :
    whole.drop start = cs → ∀ t ∈ ts, t.lexeme.Spells (whole.extract t.position t.stop) := by
  induction h with
  | last => exact nofun
  | @token start gap span rest x ts _ hspells _ _ ih =>
    intro hdrop
    have hspan : whole.drop (start + gap.length) = span ++ rest := by
      rw [← List.drop_drop, hdrop, List.append_assoc, List.drop_left]
    refine List.forall_mem_cons.mpr ⟨?_, ih ?_⟩
    · rw [List.extract_eq_take_drop, hspan, Token.stop, ← hspells.length_eq, Nat.add_sub_cancel_left,
        List.take_left]
      exact hspells
    · rw [← List.drop_drop, hspan, List.drop_left]

theorem isBlank_of_gap {whole gap more : List Char} {i : Nat} {c : Char}
    (hdrop : whole.drop start = gap ++ more) (hgap : ∀ c ∈ gap, isBlank c)
    (hc : whole[i]? = some c) (hle : start ≤ i) (hlt : i < start + gap.length) : isBlank c := by
  obtain ⟨d, hd, hget⟩ := char_of_drop hdrop hle hlt
  rw [hc] at hget
  cases hget
  exact hgap c hd

/-- In a text that goes on with these tokens, what they do not cover is blank. -/
theorem blank {whole : List Char} (h : Laid start cs ts) :
    whole.drop start = cs → ∀ i c, whole[i]? = some c → start ≤ i →
      (∀ t ∈ ts, ¬(t.position ≤ i ∧ i < t.stop)) → isBlank c := by
  induction h with
  | @last start gap hgap =>
    intro hdrop i c hc hle _
    have hlen := congrArg List.length hdrop
    have hlt := (List.getElem?_eq_some_iff.mp hc).1
    rw [List.length_drop] at hlen
    rw [← List.append_nil gap] at hdrop
    exact isBlank_of_gap hdrop hgap hc hle (by omega)
  | @token start gap span rest x ts hgap hspells _ _ ih =>
    intro hdrop i c hc hle hout
    obtain ⟨hhead, htail⟩ := List.forall_mem_cons.mp hout
    rw [List.append_assoc] at hdrop
    by_cases hi : i < start + gap.length
    · exact isBlank_of_gap hdrop hgap hc hle hi
    · simp only [Token.stop, ← hspells.length_eq] at hhead
      refine ih ?_ i c hc (by omega) htail
      rw [Nat.add_assoc, ← List.length_append, ← List.drop_drop, hdrop, ← List.append_assoc,
        List.drop_left]

end Laid

/-- **The tokens cover the text.** Their spans stand in the text in source order and do not overlap,
each spells its token, every parenthesis is a token, and nothing but blanks is left out. -/
theorem covered_of_tokenize {text : String} {ts : List Token} (h : tokenize text = .ok ts) :
    Covered text.toList ts := by
  have hlaid := laid_of_tokenize h
  have hmem : ∀ t, Specified text.toList t → t ∈ ts := by
    intro t ht
    have hexact := exact_tokenize text
    rw [h] at hexact
    cases hexact with
    | ok _ hmem _ => exact (hmem t).mpr ⟨ht, Nat.zero_le _⟩
  refine ⟨fun t ht => ?_, hlaid.ordered, hlaid.spelled rfl, fun i hi => ?_, fun i hi => ?_, ?_⟩
  · obtain ⟨-, hlt, hle⟩ := hlaid.within t ht
    exact ⟨hlt, by rwa [Nat.zero_add] at hle⟩
  · exact hmem _ (.mark (.opening hi))
  · exact hmem _ (.mark (.closing hi))
  · exact fun i c hc => hlaid.blank rfl i c hc (Nat.zero_le i)

/-- A text whose tokens have gaps before, between and behind them, and one gap within a name. -/
theorem covered_with_gaps :
    tokenize " a b and NOT( tRue ) " = .ok [⟨.name "a b", 1⟩, ⟨.connective .and, 5⟩, ⟨.negation, 9⟩,
      ⟨.opening, 12⟩, ⟨.literal true "tRue", 14⟩, ⟨.closing, 19⟩]
    ∧ Covered " a b and NOT( tRue ) ".toList [⟨.name "a b", 1⟩, ⟨.connective .and, 5⟩,
      ⟨.negation, 9⟩, ⟨.opening, 12⟩, ⟨.literal true "tRue", 14⟩, ⟨.closing, 19⟩] :=
  ⟨rfl, covered_of_tokenize rfl⟩

end FlagLogic
