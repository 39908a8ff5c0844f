import FlagLogic.Proofs.Token.Lumps
import FlagLogic.Proofs.Token.Scanning

/-!
Parentheses of texts. Each parenthesis of a text becomes a lexeme, in order, and no other text does.
Main statement: a text is nested as deep as its lexemes are (`nesting_lexemes`).
-/

namespace FlagLogic

open Text Lump

/-- The lexeme of a parenthesis. -/
def parenOfChar? (c : Char) : Option Lexeme :=
  if c = '(' then some .opening else if c = ')' then some .closing else none

/-- The parentheses of a text, as lexemes. -/
def parens (cs : List Char) : List Lexeme := cs.filterMap parenOfChar?

/-- How deep the parentheses of a text are nested. -/
def parenNesting (text : String) : Nat := nesting (parens text.toList)

/-- The lexeme is a parenthesis. -/
def Lexeme.isParen (x : Lexeme) : Bool := x = .opening ∨ x = .closing

@[simp] theorem parens_append (cs ds : List Char) : parens (cs ++ ds) = parens cs ++ parens ds :=
  List.filterMap_append

theorem parens_of_forall {cs : List Char} (h : ∀ c ∈ cs, isParen c = false) : parens cs = [] := by
  refine List.filterMap_eq_nil_iff.mpr fun c hc => ?_
  have := h c hc
  simp_all [isParen, parenOfChar?]

theorem filter_pieceLexemes (piece : List Char) :
    (pieceLexemes piece).filter Lexeme.isParen = [] := by
  refine List.filter_eq_nil_iff.mpr fun x hx => ?_
  have := flat_pieceLexemes piece x hx
  simp [Lexeme.isParen, this]

/-- Gaps and words hold no parentheses. -/
theorem parens_gap {blanks : List Char} (h : (gap blanks).Sound) : parens blanks = [] :=
  parens_of_forall fun c hc => isParen_of_isBlank (h.2 c hc)

theorem parens_word {letters : List Char} (h : (word letters).Sound) : parens letters = [] :=
  parens_of_forall fun c hc => by
    have := h.2 c hc
    simp_all [isWordChar]

/-- The parentheses among the lexemes are those of the text. -/
theorem Scanned.filter_isParen {piece : List Char} {lumps : List Lump} {ls : List Lexeme}
    (h : Scanned piece lumps ls) (hsound : ∀ l ∈ lumps, l.Sound) :
    ls.filter Lexeme.isParen = parens (lumps.flatMap chars) := by
  induction h with
  | nil piece => exact filter_pieceLexemes piece
  | negation _ _ _ ih | opening _ _ ih | closing _ ih =>
    have hrest := ih (List.forall_mem_cons.mp hsound).2
    simp [hrest, filter_pieceLexemes, Lexeme.isParen, chars, parens, parenOfChar?]
  | connective _ _ ih | words _ _ ih =>
    obtain ⟨hgap, hsound⟩ := List.forall_mem_cons.mp hsound
    obtain ⟨hword, hsound⟩ := List.forall_mem_cons.mp hsound
    have hrest := ih hsound
    simp [hrest, filter_pieceLexemes, Lexeme.isParen, chars, parens_gap hgap, parens_word hword]
  | gap _ _ ih =>
    obtain ⟨hgap, hsound⟩ := List.forall_mem_cons.mp hsound
    simp [ih hsound, chars, parens_gap hgap]
  | word _ ih =>
    obtain ⟨hword, hsound⟩ := List.forall_mem_cons.mp hsound
    simp [ih hsound, chars, parens_word hword]

theorem deepest_filter (ls : List Lexeme) : ∀ level : Nat,
    deepest level (ls.filter Lexeme.isParen) = deepest level ls := by
  induction ls with
  | nil => intro level; rfl
  | cons x ls ih =>
    intro level
    by_cases hx : x.isParen
    · rw [List.filter_cons_of_pos hx, deepest, deepest, ih]
    · rw [List.filter_cons_of_neg hx, deepest, ih]
      have henter : x.enter level = level := by
        cases x <;> first | rfl | exact absurd rfl hx
      rw [henter, Nat.max_eq_right (le_deepest level ls)]

/-- The parentheses among the lexemes of a text are those of the text. -/
theorem filter_isParen_lexemes {text : String} {ts : List Token} (h : tokenize text = .ok ts) :
    (lexemes ts).filter Lexeme.isParen = parens text.toList := by
  have hcut := cut_ofChars text.toList
  have hfilter := (scanned_of_tokenize h).filter_isParen hcut.sound
  rwa [hcut.flatMap_chars] at hfilter

/-- A text is nested as deep as its lexemes. -/
theorem nesting_lexemes {text : String} {ts : List Token} (h : tokenize text = .ok ts) :
    nesting (lexemes ts) = parenNesting text := by
  rw [parenNesting, ← filter_isParen_lexemes h]
  exact (deepest_filter (lexemes ts) 0).symm

end FlagLogic
