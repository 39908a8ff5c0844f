import FlagLogic.Proofs.Text.Words
import FlagLogic.Token.Lexer

/-!
What the tokens of a text are, said by offsets and without a scanner. A *mark* is a parenthesis, or
a word behind a blank that spells a connective; the marks cut the text into *pieces*. `Specified`
says which tokens a text has: those of its marks, and at most one of each piece. `Stray` says what
is wrong with a piece that has other text before a negation. Main statements: marks do not overlap
(`Mark.stop_le`), and two pieces are the same or stand apart (`Piece.eq_or_apart`).
-/

namespace FlagLogic

open Text

/-- The word that starts at an offset: all characters up to the next blank or parenthesis. -/
def wordAt (cs : List Char) (i : Nat) : List Char := (cs.drop i).takeWhile isWordChar

/-- The marks of a text, each from its first character to the offset behind its last one, with its
lexeme. A parenthesis ends a chunk of the text; within a chunk, a word that has a blank right before
it and spells a connective in letters of any case is an operator word. -/
inductive Mark (cs : List Char) : (start stop : Nat) → Lexeme → Prop
  | opening {i : Nat} (char : cs[i]? = some '(') : Mark cs i (i + 1) .opening
  | closing {i : Nat} (char : cs[i]? = some ')') : Mark cs i (i + 1) .closing
  | connective {i : Nat} {b : Char} {c : Connective} (before : cs[i]? = some b) (blank : isBlank b)
      (spells : upper (wordAt cs (i + 1)) = c.keyword.toList) :
      Mark cs (i + 1) (i + 1 + (wordAt cs (i + 1)).length) (.connective c)

/-- The text from `i` up to `j` stands between two marks, or between a mark and an end of the text,
and has no mark in it. -/
structure Piece (cs : List Char) (i j : Nat) : Prop where
  le : i ≤ j
  starts : i = 0 ∨ ∃ k x, Mark cs k i x
  stops : j = cs.length ∨ ∃ k x, Mark cs j k x
  unmarked : ∀ {k l x}, Mark cs k l x → l ≤ i ∨ j ≤ k

/-- The piece is the last one of a chunk that an opening parenthesis ends, and its last three
characters spell `NOT` in letters of any case. -/
structure EndsInNot (cs : List Char) (i j : Nat) : Prop where
  opening : cs[j]? = some '('
  long : i + 3 ≤ j
  spells : upper (cs.extract (j - 3) j) = negationKeyword.toList

/-- What a text without blanks at its ends stands for: a literal if it spells one in letters of any
case, and a name if it does not. -/
inductive Content (cs : List Char) : Lexeme → Prop
  | literal (b : Bool) (spells : upper cs = (literalKeyword b).toList) :
      Content cs (.literal b (String.ofList cs))
  | name (noLiteral : ∀ b, upper cs ≠ (literalKeyword b).toList) :
      Content cs (.name (String.ofList cs))

/-- The token of the piece from `i` up to `j`: a negation, if the piece is `NOT` with blanks before
it and a group behind it; else its content, unless it is blank, at its first character that is not
blank. -/
inductive OfPiece (cs : List Char) (i j : Nat) : Token → Prop
  | content {x : Lexeme} (noNot : ¬EndsInNot cs i j) (nonblank : strip (cs.extract i j) ≠ [])
      (content : Content (strip (cs.extract i j)) x) :
      OfPiece cs i j ⟨x, i + leadingBlanks (cs.extract i j)⟩
  | negation (ends : EndsInNot cs i j) (blank : strip (cs.extract i (j - 3)) = []) :
      OfPiece cs i j ⟨.negation, j - 3⟩

/-- The tokens of a text: those of its marks and those of its pieces. -/
inductive Specified (cs : List Char) : Token → Prop
  | mark {i j : Nat} {x : Lexeme} (mark : Mark cs i j x) : Specified cs ⟨x, i⟩
  | piece {i j : Nat} {t : Token} (piece : Piece cs i j) (token : OfPiece cs i j t) : Specified cs t

/-- The piece from `i` up to `j` ends in a negation, but that is not all of it. -/
structure Stray (cs : List Char) (i j : Nat) : Prop where
  piece : Piece cs i j
  ends : EndsInNot cs i j
  nonblank : strip (cs.extract i (j - 3)) ≠ []

/-- The error of a stray piece, at its first character that is not blank. -/
def strayError (text : String) (i j : Nat) : Error :=
  .grammar (.textBeforeNot (String.ofList (strip (text.toList.extract i (j - 3))))) text
    (i + leadingBlanks (text.toList.extract i j))

/-! ## Words at offsets -/

section Words

variable {cs : List Char} {i j k l : Nat} {x y : Lexeme}

theorem wordAt_eq {letters more : List Char} (h : cs.drop i = letters ++ more)
    (hl : ∀ c ∈ letters, isWordChar c) (hmore : ∀ c ∈ more.head?, isWordChar c = false) :
    wordAt cs i = letters := by
  rw [wordAt, h, List.takeWhile_append_of_pos hl]
  cases more with
  | nil => simp
  | cons c more => simp [hmore c rfl]

/-- A word consists of the characters of the text from its offset on. -/
theorem char_of_wordAt (hi : i ≤ k) (hk : k < i + (wordAt cs i).length) :
    ∃ c, cs[k]? = some c ∧ isWordChar c := by
  have hlt : k - i < (wordAt cs i).length := by omega
  have hget := List.prefix_iff_getElem?.mp (List.takeWhile_prefix isWordChar) (k - i) hlt
  rw [List.getElem?_drop, Nat.add_sub_cancel' hi] at hget
  refine ⟨_, hget, ?_⟩
  exact List.all_eq_true.mp List.all_takeWhile _ (List.getElem_mem hlt)

/-! ## Marks -/

theorem isBlank_of_isWordChar {c : Char} (h : isWordChar c) : isBlank c = false := by
  simp_all [isWordChar]

theorem Connective.keyword_inj {c d : Connective} (h : c.keyword.toList = d.keyword.toList) :
    c = d := by
  cases c <;> cases d <;> first | rfl | exact absurd h (by decide)

namespace Mark

/-- An operator word is not empty, and holds no parenthesis and no blank. -/
theorem chars_connective {c : Connective} (h : Mark cs i j (.connective c)) :
    i < j ∧ ∀ k, i ≤ k → k < j → ∃ d, cs[k]? = some d ∧ isWordChar d := by
  cases h with
  | @connective i b _ _ _ hspells =>
    have hne : wordAt cs (i + 1) ≠ [] := by
      intro hnil
      rw [hnil] at hspells
      cases c <;> cases hspells
    have hpos := List.length_pos_iff.mpr hne
    exact ⟨by omega, fun k hi hk => char_of_wordAt hi hk⟩

/-- A mark is not empty and holds no blank. -/
theorem chars (h : Mark cs i j x) :
    i < j ∧ ∀ k, i ≤ k → k < j → ∃ c, cs[k]? = some c ∧ isBlank c = false := by
  cases h with
  | opening h | closing h =>
    refine ⟨by omega, fun k hi hk => ?_⟩
    rw [Nat.le_antisymm (Nat.le_of_lt_succ hk) hi]
    exact ⟨_, h, by decide⟩
  | connective hb hblank hspells =>
    obtain ⟨hlt, hchars⟩ := (Mark.connective hb hblank hspells).chars_connective
    refine ⟨hlt, fun k hi hk => ?_⟩
    obtain ⟨d, hd, hword⟩ := hchars k hi hk
    exact ⟨d, hd, isBlank_of_isWordChar hword⟩

theorem lt (h : Mark cs i j x) : i < j := h.chars.1

theorem le_length (h : Mark cs i j x) : j ≤ cs.length := by
  have hlt := h.lt
  obtain ⟨c, hc, -⟩ := h.chars.2 (j - 1) (by omega) (by omega)
  have := (List.getElem?_eq_some_iff.mp hc).1
  omega

/-- No mark starts within an operator word. -/
theorem not_within {c : Connective} (h : Mark cs i j (.connective c)) (h' : Mark cs k l y)
    (hlt : i < k) : j ≤ k := by
  have hchars := h.chars_connective.2
  refine Nat.not_lt.mp fun hkj => ?_
  cases h' with
  | opening hk | closing hk =>
    obtain ⟨d, hd, hword⟩ := hchars k (by omega) hkj
    rw [hk] at hd
    cases hd
    exact absurd hword (by decide)
  | @connective k b _ hk hblank _ =>
    -- the blank before it would be a letter of the word around it
    obtain ⟨d, hd, hword⟩ := hchars k (by omega) (by omega)
    rw [hk] at hd
    cases hd
    rw [isBlank_of_isWordChar hword] at hblank
    cases hblank

/-- Marks do not overlap. -/
theorem stop_le (h : Mark cs i j x) (h' : Mark cs k l y) (hlt : i < k) : j ≤ k := by
  cases h with
  | opening | closing => omega
  | connective hb hblank hspells => exact (Mark.connective hb hblank hspells).not_within h' hlt

/-- No parenthesis stands where an operator word starts. -/
theorem ne_paren {c : Connective} (h : Mark cs i j (.connective c)) {d : Char}
    (hd : cs[i]? = some d) : d ≠ '(' ∧ d ≠ ')' := by
  obtain ⟨e, he, hword⟩ := h.chars_connective.2 i (Nat.le_refl _) h.lt
  rw [hd] at he
  cases he
  constructor <;> rintro rfl <;> exact absurd hword (by decide)

/-- One mark at most starts at an offset. -/
theorem unique (h : Mark cs i j x) (h' : Mark cs i k y) : j = k ∧ x = y := by
  cases h with
  | opening hi =>
    cases h' with
    | opening => exact ⟨rfl, rfl⟩
    | closing hi' => rw [hi] at hi'; cases hi'
    | connective hb hblank hspells =>
      exact absurd rfl ((Mark.connective hb hblank hspells).ne_paren hi).1
  | closing hi =>
    cases h' with
    | opening hi' => rw [hi] at hi'; cases hi'
    | closing => exact ⟨rfl, rfl⟩
    | connective hb hblank hspells =>
      exact absurd rfl ((Mark.connective hb hblank hspells).ne_paren hi).2
  | connective hb hblank hspells =>
    have hmark := Mark.connective hb hblank hspells
    cases h' with
    | opening hi' => exact absurd rfl (hmark.ne_paren hi').1
    | closing hi' => exact absurd rfl (hmark.ne_paren hi').2
    | connective _ _ hspells' =>
      obtain rfl := Connective.keyword_inj (hspells.symm.trans hspells')
      exact ⟨rfl, rfl⟩

end Mark

/-! ## Pieces -/

namespace Piece

theorem le_length (h : Piece cs i j) : j ≤ cs.length := by
  rcases h.stops with hj | ⟨l, x, hmark⟩
  · exact Nat.le_of_eq hj
  · exact Nat.le_of_lt (Nat.lt_of_lt_of_le hmark.lt hmark.le_length)

/-- A piece that starts behind the start of another one starts behind all of it. -/
theorem lt_of_start_lt (h : Piece cs i j) (h' : Piece cs k l) (hlt : i < k) : j < k := by
  rcases h'.starts with hk | ⟨m, x, hmark⟩
  · omega
  · have hm := hmark.lt
    have := h.unmarked hmark
    omega

theorem stop_le_of_start_eq (h : Piece cs i j) (h' : Piece cs i l) : j ≤ l := by
  rcases h'.stops with hl | ⟨m, x, hmark⟩
  · rw [hl]
    exact h.le_length
  · have hm := hmark.lt
    have hle := h'.le
    have := h.unmarked hmark
    omega

/-- Two pieces are the same, or there is a mark between them. -/
theorem eq_or_apart (h : Piece cs i j) (h' : Piece cs k l) : (i = k ∧ j = l) ∨ j < k ∨ l < i := by
  rcases Nat.lt_trichotomy i k with hlt | rfl | hlt
  · exact .inr (.inl (h.lt_of_start_lt h' hlt))
  · exact .inl ⟨rfl, Nat.le_antisymm (h.stop_le_of_start_eq h') (h'.stop_le_of_start_eq h)⟩
  · exact .inr (.inr (h'.lt_of_start_lt h hlt))

end Piece

end Words

/-! ## Tokens of pieces -/

/-- The token of a piece stands within it. -/
theorem OfPiece.position {cs : List Char} {i j : Nat} {t : Token} (h : OfPiece cs i j t) :
    i ≤ t.position ∧ t.position < j := by
  cases h with
  | content _ hne _ =>
    have hlt := leadingBlanks_lt hne
    rw [List.length_take, List.length_drop] at hlt
    simp only
    omega
  | negation hends _ =>
    have := hends.long
    simp only
    omega

end FlagLogic
