import FlagLogic.Proofs.Text.Spelling
import FlagLogic.Token.Lexer

/-!
Keywords in a text. The scanner finds a keyword by the upper case of a text: a word spells a
connective (`ofWord?_eq_some_iff`), all of a piece spells a literal (`literalOfText?_eq_some_iff`), or
the end of a piece spells a negation (`beforeNot?_eq_some_iff`). In letters of any case, a keyword is
one word.
-/

namespace FlagLogic

open Text

theorem ofWord?_eq_some_iff {cs : List Char} {c : Connective} :
    Connective.ofWord? cs = some c ↔ upper cs = c.keyword.toList := by
  unfold Connective.ofWord?
  constructor
  · intro h
    split at h
    · next hspells => cases h; exact hspells
    · split at h
      · next hspells => cases h; exact hspells
      · cases h
  · intro h
    rw [h]
    cases c <;> rfl

theorem literalOfText?_eq_some_iff {cs : List Char} {b : Bool} :
    literalOfText? cs = some b ↔ upper cs = (literalKeyword b).toList := by
  unfold literalOfText?
  constructor
  · intro h
    split at h
    · next hspells => cases h; exact hspells
    · split at h
      · next hspells => cases h; exact hspells
      · cases h
  · intro h
    rw [h]
    cases b <;> rfl

/-- The last three characters of a piece that ends in `NOT` are those that spell it. -/
theorem beforeNot?_eq_some_iff {piece before : List Char} : beforeNot? piece = some before ↔
    ∃ word, piece = before ++ word ∧ upper word = negationKeyword.toList := by
  have hdef : beforeNot? piece =
      if upper (piece.drop (piece.length - 3)) = negationKeyword.toList
        then some (piece.take (piece.length - 3)) else none := rfl
  rw [hdef]
  constructor
  · intro h
    split at h
    · next hspells =>
      cases h
      exact ⟨_, (List.take_append_drop _ piece).symm, hspells⟩
    · cases h
  · rintro ⟨word, rfl, hspells⟩
    have hlen : word.length = 3 := length_of_upper hspells (by decide)
    have hbefore : (before ++ word).length - 3 = before.length := by
      rw [List.length_append, hlen, Nat.add_sub_cancel]
    rw [hbefore, List.drop_left, List.take_left, if_pos hspells]

/-- A piece does not end in `NOT` if no suffix of it spells that. -/
theorem beforeNot?_eq_none_iff {piece : List Char} :
    beforeNot? piece = none ↔ ∀ word, word <:+ piece → upper word ≠ negationKeyword.toList := by
  rw [Option.eq_none_iff_forall_ne_some]
  constructor
  · rintro h word ⟨before, heq⟩ hspells
    exact h before (beforeNot?_eq_some_iff.mpr ⟨word, heq.symm, hspells⟩)
  · intro h before hsome
    obtain ⟨word, rfl, hspells⟩ := beforeNot?_eq_some_iff.mp hsome
    exact h word (List.suffix_append before word) hspells

/-! ## Keywords as words -/

theorem upper_keyword (c : Connective) : upper c.keyword.toList = c.keyword.toList := by
  cases c <;> rfl

theorem upper_negationKeyword : upper negationKeyword.toList = negationKeyword.toList := rfl

variable {word : List Char}

theorem isWordChar_of_connective {c : Connective} (h : upper word = c.keyword.toList) :
    word ≠ [] ∧ ∀ d ∈ word, isWordChar d := by
  refine ⟨?_, isWordChar_of_upper h (by cases c <;> rfl)⟩
  rintro rfl
  cases c <;> cases h

theorem isWordChar_of_negation (h : upper word = negationKeyword.toList) :
    word ≠ [] ∧ ∀ d ∈ word, isWordChar d := by
  refine ⟨?_, isWordChar_of_upper h rfl⟩
  rintro rfl
  cases h

theorem isWordChar_of_literal {b : Bool} (h : upper word = (literalKeyword b).toList) :
    word ≠ [] ∧ ∀ d ∈ word, isWordChar d := by
  refine ⟨?_, isWordChar_of_upper h (by cases b <;> rfl)⟩
  rintro rfl
  cases b <;> cases h

end FlagLogic
