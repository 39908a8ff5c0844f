import FlagLogic.Formula.Walk
import FlagLogic.Proofs.Token.Names

/-!
Canonical text and its lexemes. The writer's list of work is unfolded into a plain recursion over
the formula (`toList_text`), and the text of a formula is read back operand by operand, whatever
stands behind it (`scanned_operand`). Only in one place does a name not come back as a name: behind
a connective its first word is read as a connective if it spells one.
-/

namespace FlagLogic

open Text Lump

namespace Formula

/-! ## Canonical text as a recursion -/

/-- The characters of a formula's canonical text, `nested` if it is an operand of a connective. -/
def chars (nested : Bool) : Formula → List Char
  | hole => ['?']
  | foreign _ shown => shown.toList
  | literal b => (literalKeyword b).toList
  | setting name => name.toList
  | not x => negationKeyword.toList ++ '(' :: x.chars false ++ [')']
  | binary c l r =>
    let inner := l.chars true ++ ' ' :: c.keyword.toList ++ ' ' :: r.chars true
    if nested then '(' :: inner ++ [')'] else inner

/-- The characters of a piece of work. -/
def Piece.chars : Piece → List Char
  | ready text => text.toList
  | part f nested => f.chars nested

theorem toList_write (done : String) (pieces : List Piece) :
    (write done pieces).toList = done.toList ++ pieces.flatMap Piece.chars := by
  fun_induction write done pieces with
  | case1 => simp
  | case2 _ _ _ ih | case3 _ _ _ ih | case4 _ _ _ _ _ ih | case5 _ _ _ _ ih | case6 _ _ _ _ ih
  | case7 _ _ _ _ ih => simp [ih, Piece.chars, chars]
  | case8 done rest c l r inner ih =>
    rw [ih]
    simp [inner, Piece.chars, chars]
  | case9 done nested rest c l r inner hnested ih =>
    rw [ih]
    simp [inner, hnested, Piece.chars, chars]

theorem toList_text (f : Formula) : f.text.toList = f.chars false := by
  rw [text, toList_write]
  simp [Piece.chars]

/-! ## Formulas that texts can stand for -/

/-- The formula is whole, and its settings have producible names. -/
def Producible : Formula → Prop
  | literal _ => True
  | setting name => FlagLogic.Producible name
  | not x => x.Producible
  | binary _ l r => l.Producible ∧ r.Producible
  | hole | foreign .. => False

/-- The formula is a setting, and the first word of its name spells a connective. -/
def leadsWithConnective : Formula → Bool
  | setting name => (leadConnective? name).isSome
  | _ => false

/-- Some connective has a setting as its right operand whose first word spells a connective. -/
def Clashes : Formula → Prop
  | not x => x.Clashes
  | binary _ l r => l.Clashes ∨ r.Clashes ∨ r.leadsWithConnective
  | _ => False

instance decidableProducible : (f : Formula) → Decidable f.Producible
  | literal _ => isTrue trivial
  | setting name => inferInstanceAs (Decidable (FlagLogic.Producible name))
  | not x => decidableProducible x
  | binary _ l r =>
    have := decidableProducible l
    have := decidableProducible r
    inferInstanceAs (Decidable (_ ∧ _))
  | hole | foreign .. => isFalse id

instance decidableClashes : (f : Formula) → Decidable f.Clashes
  | not x => decidableClashes x
  | binary _ l r =>
    have := decidableClashes l
    have := decidableClashes r
    inferInstanceAs (Decidable (_ ∨ _ ∨ _))
  | literal _ | setting _ | hole | foreign .. => isFalse id

theorem Producible.of_mem_leaves {f : Formula} (h : f.Producible) {name : String}
    (hname : name ∈ f.leaves) : FlagLogic.Producible name := by
  induction f with
  | literal b => cases hname
  | setting name' =>
    obtain rfl := List.mem_singleton.mp hname
    exact h
  | not x ih => exact ih h hname
  | binary c l r ihl ihr =>
    rcases List.mem_append.mp hname with hname | hname
    · exact ihl h.1 hname
    · exact ihr h.2 hname
  | hole => cases hname
  | foreign kind shown => cases hname

/-- How deep groups are nested in canonical text: a negation has a group of its own, and so has a
connective that is an operand of a connective. -/
def nesting : Formula → Nat
  | not x => x.nesting + 1
  | binary _ l r =>
    max (l.nesting + if l.isBinary then 1 else 0) (r.nesting + if r.isBinary then 1 else 0)
  | _ => 0

/-! ## Lexemes of canonical text -/

/-- Where a formula stands in canonical text: as the whole of a text or of a group, or as an operand
of a connective. -/
inductive Place where
  | whole
  | left
  | right
  deriving DecidableEq

/-- An operand of a connective is nested. -/
@[simp] def Place.nested : Place → Bool
  | whole => false
  | left | right => true

/-- What stands between the last connective or parenthesis and the place. -/
@[simp] def Place.gap : Place → List Char
  | whole | left => []
  | right => [' ']

theorem Place.isBlank_of_mem_gap (place : Place) : ∀ c ∈ place.gap, isBlank c := by
  intro c hc
  cases place with
  | whole | left => cases hc
  | right => rw [List.mem_singleton.mp hc]; rfl

/-- The lexemes that the canonical text of a formula is read as. -/
def lexemes (place : Place) : Formula → List Lexeme
  | literal b => [.literal b (literalKeyword b)]
  | setting name =>
    match place, leadConnective? name with
    | .right, some c => .connective c :: pieceLexemes (afterFirstWord name)
    | _, _ => [.name name]
  | not x => .negation :: .opening :: x.lexemes .whole ++ [.closing]
  | binary c l r =>
    let inner := l.lexemes .left ++ .connective c :: r.lexemes .right
    if place.nested then .opening :: inner ++ [.closing] else inner
  | hole | foreign .. => []

end Formula

/-! ## Reading canonical text -/

/-- `rest` may stand behind an operand, and is read as `ls` after it. -/
structure Follows (rest : List Char) (ls : List Lexeme) : Prop where
  ends : ∀ c ∈ rest.head?, isWordChar c = false
  scanned : ∀ piece, Scanned piece (ofChars rest) (pieceLexemes piece ++ ls)

namespace Follows

theorem nil : Follows [] [] where
  ends := nofun
  scanned piece := by
    rw [List.append_nil]
    exact .nil piece

theorem closing {rest : List Char} {ls : List Lexeme} (h : Follows rest ls) :
    Follows (')' :: rest) (.closing :: ls) where
  ends c hc := by cases hc; rfl
  scanned _ := .closing (h.scanned [])

theorem connective (c : Connective) {cs : List Char} {ls : List Lexeme}
    (h : Scanned [] (ofChars (' ' :: cs)) ls) :
    Follows (' ' :: c.keyword.toList ++ ' ' :: cs) (.connective c :: ls) where
  ends c hc := by cases hc; rfl
  scanned piece := by
    have hcut : ofChars (' ' :: c.keyword.toList ++ ' ' :: cs)
        = .gap [' '] :: .word c.keyword.toList :: ofChars (' ' :: cs) :=
      ofChars_gap_word ⟨by simp, List.forall_mem_singleton.mpr rfl⟩
        (isWordChar_of_connective (upper_keyword c)) fun d hd => by cases hd; rfl
    rw [hcut]
    exact .connective (ofWord?_eq_some_iff.mpr (upper_keyword c)) h

end Follows

/-- A word is plain, also behind the gap of its place. -/
theorem plain_gap_append (place : Formula.Place) {letters : List Char}
    (hl : ∀ c ∈ letters, isWordChar c)
    (hword : Connective.ofWord? letters = none) : Plain (place.gap ++ letters) :=
  .blanks_append_word place.isBlank_of_mem_gap hl hword

theorem pieceLexemes_gap_append (place : Formula.Place) (piece : List Char) :
    pieceLexemes (place.gap ++ piece) = pieceLexemes piece := by
  cases place with
  | whole | left => rfl
  | right => exact pieceLexemes_cons_blank (by decide) piece

/-- A group is read in every place. -/
theorem scanned_group (place : Formula.Place) {rest : List Char} {ls : List Lexeme}
    (h : Scanned [] (ofChars rest) ls) :
    Scanned [] (ofChars (place.gap ++ '(' :: rest)) (.opening :: ls) := by
  cases place with
  | whole | left => exact .opening rfl h
  | right => exact .gap nofun (.opening rfl h)

/-- Behind a connective, the first word of a name is read as a connective if it spells one. -/
theorem scanned_clash {name : String} {c : Connective} (hname : Producible name)
    (hc : leadConnective? name = some c) {rest : List Char} {ls : List Lexeme}
    (h : Follows rest ls) :
    Scanned [] (ofChars (' ' :: name.toList ++ rest))
      (.connective c :: pieceLexemes (afterFirstWord name) ++ ls) := by
  have hword : Connective.ofWord? (name.toList.takeWhile (!isBlank ·)) = some c := by
    simpa [leadConnective?, hname.words_eq] using hc
  have hletters : ∀ c ∈ name.toList.takeWhile (!isBlank ·), isWordChar c := fun c hc => by
    have hb : isBlank c = false := by simpa using List.all_eq_true.mp List.all_takeWhile c hc
    exact isWordChar_of_not hb (hname.noParen c ((List.takeWhile_sublist _).subset hc))
  have hends : ∀ c ∈ (afterFirstWord name ++ rest).head?, isWordChar c = false := by
    cases hafter : afterFirstWord name with
    | nil => exact h.ends
    | cons b after =>
      intro c hc
      cases hc
      exact isWordChar_of_isBlank (head?_afterFirstWord name b (by rw [hafter]; rfl))
  have hread := scanned_append [] hname.plain_afterFirstWord
    hname.getLast?_afterFirstWord h.ends (h.scanned (afterFirstWord name))
  rw [← takeWhile_append_afterFirstWord name]
  generalize name.toList.takeWhile (!isBlank ·) = word at hword hletters
  have hne : word ≠ [] := by
    rintro rfl
    cases show none = some c from hword
  have hcut : ofChars (' ' :: (word ++ (afterFirstWord name ++ rest)))
      = .gap [' '] :: .word word :: ofChars (afterFirstWord name ++ rest) :=
    ofChars_gap_word ⟨by simp, List.forall_mem_singleton.mpr rfl⟩ ⟨hne, hletters⟩ hends
  rw [List.cons_append, List.append_assoc, hcut]
  exact .connective hword hread

/-- The canonical text of a formula is read as its lexemes, in every place and whatever stands
behind it. -/
theorem scanned_operand {f : Formula} (hf : f.Producible) (place : Formula.Place)
    {rest : List Char} {ls : List Lexeme} (h : Follows rest ls) :
    Scanned [] (ofChars (place.gap ++ f.chars place.nested ++ rest)) (f.lexemes place ++ ls) := by
  induction f generalizing place rest ls with
  | hole | foreign => exact hf.elim
  | literal b =>
    have hplain : Plain (place.gap ++ (literalKeyword b).toList) :=
      plain_gap_append place (List.all_eq_true.mp (by cases b <;> rfl)) (by cases b <;> rfl)
    have hpiece : pieceLexemes (place.gap ++ (literalKeyword b).toList)
        = [.literal b (literalKeyword b)] := by
      rw [pieceLexemes_gap_append]
      cases b <;> rfl
    have hread := h.scanned (place.gap ++ (literalKeyword b).toList)
    rw [hpiece] at hread
    refine scanned_append [] hplain (fun c hc => ?_) h.ends hread
    cases place <;> cases b <;> cases hc <;> rfl
  | setting name =>
    have hname : Producible name := hf
    have hlast := hname.head_getLast.2
    have hread := h.scanned (place.gap ++ name.toList)
    rw [pieceLexemes_gap_append, hname.pieceLexemes_eq] at hread
    cases place with
    | whole | left => exact scanned_append [] hname.plain hlast h.ends hread
    | right =>
      cases hc : leadConnective? name with
      | some c => simpa [Formula.chars, Formula.lexemes, hc] using scanned_clash hname hc h
      | none =>
        have hlast : ∀ c ∈ (' ' :: name.toList).getLast?, isBlank c = false := fun c hc => by
          rw [List.getLast?_cons_of_ne_nil hname.ne_nil] at hc
          exact hlast c hc
        have := scanned_append [] (hname.plain_cons_blank hc) hlast h.ends hread
        simpa [Formula.chars, Formula.lexemes, hc] using this
  | not x ih =>
    have := scanned_negation place.isBlank_of_mem_gap upper_negationKeyword
      (ih hf .whole h.closing)
    simpa [Formula.chars, Formula.lexemes] using this
  | binary c l r ihl ihr =>
    -- the right operand is read up to the rest, so the connective with it may follow the left one
    have hinner : ∀ {rest ls}, Follows rest ls →
        Scanned [] (ofChars ((Formula.binary c l r).chars false ++ rest))
          ((Formula.binary c l r).lexemes .whole ++ ls) := fun h => by
      have := ihl hf.1 .left (Follows.connective c (ihr hf.2 .right h))
      simpa [Formula.chars, Formula.lexemes] using this
    cases place with
    | whole => exact hinner h
    | left => simpa [Formula.chars, Formula.lexemes] using scanned_group .left (hinner h.closing)
    | right => simpa [Formula.chars, Formula.lexemes] using scanned_group .right (hinner h.closing)

/-- Canonical text has the lexemes of its formula. -/
theorem tokenize_text {f : Formula} (hf : f.Producible) :
    ∃ ts, tokenize f.text = .ok ts ∧ FlagLogic.lexemes ts = f.lexemes .whole := by
  have hread := scanned_operand hf .whole Follows.nil
  simp only [Formula.Place.gap, Formula.Place.nested, List.nil_append, List.append_nil] at hread
  rw [← Formula.toList_text] at hread
  exact tokenize_of_scanned hread

end FlagLogic
