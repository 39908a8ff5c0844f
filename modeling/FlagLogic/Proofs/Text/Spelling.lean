import FlagLogic.Proofs.Text.Words
import FlagLogic.Text.Case
import FlagLogic.Token

/-!
Spellings of keywords in letters of any case. Blanks and parentheses are their own upper case, so a
text is one word if its upper case is one (`isWordChar_of_upper`). A character may have an upper case
of several characters, as `ß` has, but never one that is part of the keyword of an operator: a text
that spells such a keyword is as long as the keyword (`length_of_upper`).
-/

namespace FlagLogic.Text

/-! ## Blanks and parentheses -/

theorem upperChar_of_isBlank {c : Char} (h : isBlank c) : upperChar c = [c] := by
  have htable : ∀ n ∈ List.range' 9 5 ++ List.range' 28 5 ++ List.range' 0x2000 11
      ++ [0x85, 0xA0, 0x1680, 0x2028, 0x2029, 0x202F, 0x205F, 0x3000],
      upperChar (Char.ofNat n) = [Char.ofNat n] := by decide
  have hcode := htable c.toNat (by
    simp only [isBlank, Bool.or_eq_true, Bool.and_eq_true, decide_eq_true_eq, beq_iff_eq] at h
    simp only [List.mem_append, List.mem_range'_1, List.mem_cons, List.not_mem_nil]
    omega)
  rwa [Char.ofNat_toNat] at hcode

theorem upperChar_of_isParen {c : Char} (h : isParen c) : upperChar c = [c] := by
  rcases (by simpa [isParen] using h : c = '(' ∨ c = ')') with rfl | rfl <;> rfl

/-- A blank or a parenthesis stays in the upper case of a text. -/
theorem mem_upper {c : Char} {cs : List Char} (h : c ∈ cs) (hc : isWordChar c = false) :
    c ∈ upper cs := by
  refine List.mem_flatMap.mpr ⟨c, h, ?_⟩
  have hself : upperChar c = [c] := by
    cases hb : isBlank c with
    | true => exact upperChar_of_isBlank hb
    | false => exact upperChar_of_isParen (by simpa [isWordChar, hb] using hc)
  rw [hself]
  exact List.mem_singleton_self c

/-- A text whose upper case is one word is one word. -/
theorem isWordChar_of_upper {cs w : List Char} (h : upper cs = w) (hw : w.all isWordChar) :
    ∀ c ∈ cs, isWordChar c := by
  intro c hc
  cases hword : isWordChar c with
  | true => rfl
  | false =>
    have hletter := List.all_eq_true.mp hw c (h ▸ mem_upper hc hword)
    rw [hword] at hletter
    exact hletter

/-! ## Keywords of operators -/

/-- The letters of the keywords of operators. -/
def operatorLetters : List Char := ['A', 'N', 'D', 'O', 'R', 'T']

/-- An upper case in these letters is one letter. -/
theorem length_upperChar {c : Char} (h : upperChar c ⊆ operatorLetters) :
    (upperChar c).length = 1 := by
  have htable : upperSpecials.all fun p => p.2.any fun x => !operatorLetters.contains x := by decide
  revert h
  unfold upperChar
  split
  · exact fun _ => rfl
  · split
    · next cs hlookup =>
      intro h
      obtain ⟨before, after, heq, -⟩ := List.lookup_eq_some_iff.mp hlookup
      have hspecial := List.all_eq_true.mp htable (c.toNat, cs) (by simp [heq])
      obtain ⟨x, hx, hno⟩ := List.any_eq_true.mp hspecial
      exact absurd (h hx) (by simpa using hno)
    · exact fun _ => rfl

/-- A text is as long as its upper case, if that is in the letters of the operators. -/
theorem length_of_upper {cs w : List Char} (h : upper cs = w) (hw : w ⊆ operatorLetters) :
    cs.length = w.length := by
  subst h
  induction cs with
  | nil => rfl
  | cons c cs ih =>
    obtain ⟨hc, hcs⟩ := List.append_subset.mp hw
    rw [upper_cons, List.length_append, length_upperChar hc, ← ih hcs, List.length_cons, Nat.add_comm]

end FlagLogic.Text
