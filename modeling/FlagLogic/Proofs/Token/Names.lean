import FlagLogic.Proofs.Token.Keywords
import FlagLogic.Proofs.Token.Lumps
import FlagLogic.Proofs.Token.Scanning

/-!
Names without quotation marks. A text is `Plain` if it is read as part of one piece: it has no
parenthesis, and no word behind a blank spells a connective. Main statements: a plain text is read
into the piece as it stands (`scanned_plain`, `scanned_append`), a `Producible` name is the one lexeme
of its own text (`Producible.pieceLexemes_eq`), the name of a plain piece is producible
(`Plain.producible`), and `NOT` before a parenthesis is a negation, also behind blanks
(`scanned_negation`).
-/

namespace FlagLogic

open Text Lump

/-- The text can stand for a setting of this name: it is not empty, has no blanks at its ends and no
parenthesis, no word behind the first one spells a connective, and it does not spell a literal. -/
structure Producible (s : String) : Prop where
  nonempty : s ≠ ""
  stripped : stripped s = s
  noParen : ∀ c ∈ s.toList, isParen c = false
  noConnective : ∀ w ∈ (words s.toList).tail, Connective.ofWord? w = none
  noLiteral : literalOfText? s.toList = none

instance (s : String) : Decidable (Producible s) :=
  decidable_of_iff (s ≠ "" ∧ Text.stripped s = s ∧ s.toList.all (!isParen ·)
      ∧ (words s.toList).tail.all (Connective.ofWord? · = none) ∧ literalOfText? s.toList = none)
    ⟨fun ⟨h₁, h₂, h₃, h₄, h₅⟩ => ⟨h₁, h₂, by simpa using h₃, by simpa using h₄, h₅⟩,
      fun ⟨h₁, h₂, h₃, h₄, h₅⟩ => ⟨h₁, h₂, by simpa using h₃, by simpa using h₄, h₅⟩⟩

/-- The text is read as part of one piece. -/
structure Plain (cs : List Char) : Prop where
  noParen : ∀ c ∈ cs, isParen c = false
  noConnective : ∀ w ∈ ledWords cs, Connective.ofWord? w = none

/-! ## Reading plain text -/

theorem behind_subset (lumps : List Lump) : behind lumps ⊆ lumps := by
  cases lumps with
  | nil => exact List.Subset.refl _
  | cons l lumps =>
    cases l with
    | word letters => exact List.subset_cons_self ..
    | _ => exact List.Subset.refl _

/-- Lumps without parentheses are read into the piece if none of their words behind the first lump
spells a connective. -/
theorem scanned_lumps {lumps more : List Lump} {piece : List Char} {ls : List Lexeme}
    (hparen : ∀ l ∈ lumps, l ≠ .opening ∧ l ≠ .closing)
    (hwords : ∀ w, .word w ∈ behind lumps → Connective.ofWord? w = none) (hmore : NoWord more)
    (h : Scanned (piece ++ lumps.flatMap chars) more ls) : Scanned piece (lumps ++ more) ls := by
  induction lumps generalizing piece with
  | nil => simpa using h
  | cons l lumps ih =>
    obtain ⟨hl, hlumps⟩ := List.forall_mem_cons.mp hparen
    rw [List.flatMap_cons, ← List.append_assoc] at h
    cases l with
    | opening => exact absurd rfl hl.1
    | closing => exact absurd rfl hl.2
    | word letters => exact .word (ih hlumps (fun w hw => hwords w (behind_subset lumps hw)) h)
    | gap blanks =>
      have hread := ih hlumps
        (fun w hw => hwords w (List.mem_cons_of_mem _ (behind_subset lumps hw))) h
      -- a word right behind the gap is read together with it
      cases lumps with
      | nil => exact .gap hmore hread
      | cons k lumps =>
        cases k with
        | word letters =>
          cases hread with
          | word next => exact .words (hwords letters (by simp [behind])) next
        | _ => exact .gap nofun hread

/-- A plain text is read into the piece as it stands. -/
theorem scanned_plain (piece : List Char) {cs : List Char} {more : List Lump} {ls : List Lexeme}
    (hcs : Plain cs) (hmore : NoWord more) (h : Scanned (piece ++ cs) more ls) :
    Scanned piece (ofChars cs ++ more) ls := by
  have hcut := cut_ofChars cs
  refine scanned_lumps ?_ ?_ hmore (by rwa [hcut.flatMap_chars])
  · intro l hl
    have hmem : ∀ c ∈ l.chars, isParen c = false := fun c hc => by
      refine hcs.noParen c ?_
      rw [← hcut.flatMap_chars]
      exact List.mem_flatMap.mpr ⟨l, hl, hc⟩
    constructor <;> rintro rfl <;> exact absurd (hmem _ (List.mem_singleton.mpr rfl)) (by decide)
  · intro w hw
    refine hcs.noConnective w ?_
    rw [hcut.ledWords_eq hcs.noParen]
    exact List.mem_filterMap.mpr ⟨_, hw, rfl⟩

/-- A plain text is read as it stands up to the end of its last word, whatever is behind it. -/
theorem scanned_append (piece : List Char) {cs rest : List Char} {ls : List Lexeme} (hcs : Plain cs)
    (hlast : ∀ c ∈ cs.getLast?, isBlank c = false)
    (hrest : ∀ c ∈ rest.head?, isWordChar c = false) (h : Scanned (piece ++ cs) (ofChars rest) ls) :
    Scanned piece (ofChars (cs ++ rest)) ls := by
  have hletter : ∀ c ∈ cs.getLast?, isWordChar c := fun c hc => by
    have hparen := hcs.noParen c (List.mem_of_getLast? hc)
    exact isWordChar_of_not (hlast c hc) hparen
  rw [ofChars_append hletter hrest]
  exact scanned_plain piece hcs (noWord_ofChars hrest) h

/-! ## Producible names -/

/-- The connective that the first word of a name spells. -/
def leadConnective? (s : String) : Option Connective :=
  (words s.toList).head?.bind Connective.ofWord?

/-- What stands behind the first word of a name. -/
def afterFirstWord (s : String) : List Char := s.toList.dropWhile (!isBlank ·)

theorem takeWhile_append_afterFirstWord (s : String) :
    s.toList.takeWhile (!isBlank ·) ++ afterFirstWord s = s.toList :=
  List.takeWhile_append_dropWhile

theorem head?_afterFirstWord (s : String) : ∀ c ∈ (afterFirstWord s).head?, isBlank c := by
  intro c hc
  have := List.head?_dropWhile_not (!isBlank ·) s.toList
  rw [← afterFirstWord, hc] at this
  simpa using this

namespace Producible

variable {s : String} (h : Producible s)
include h

theorem strip_eq : strip s.toList = s.toList := by
  have := congrArg String.toList h.stripped
  simpa [FlagLogic.Text.stripped] using this

theorem ne_nil : s.toList ≠ [] := fun hnil => h.nonempty (String.toList_eq_nil_iff.mp hnil)

theorem head_getLast :
    (∀ c ∈ s.toList.head?, isBlank c = false) ∧ ∀ c ∈ s.toList.getLast?, isBlank c = false :=
  strip_eq_self_iff.mp h.strip_eq

theorem words_eq :
    words s.toList = s.toList.takeWhile (!isBlank ·) :: ledWords (afterFirstWord s) :=
  words_eq_cons h.ne_nil h.head_getLast.1

theorem getLast?_afterFirstWord : ∀ c ∈ (afterFirstWord s).getLast?, isBlank c = false := by
  intro c hc
  refine h.head_getLast.2 c ?_
  rw [← takeWhile_append_afterFirstWord s, List.getLast?_append, hc]
  rfl

/-- Behind a parenthesis, or at the start of a text, the name is plain. -/
theorem plain : Plain s.toList where
  noParen := h.noParen
  noConnective w hw := by
    rw [ledWords_eq_tail h.head_getLast.1] at hw
    exact h.noConnective w hw

/-- Behind a connective the name is plain if its first word does not spell another one. -/
theorem plain_cons_blank (hlead : leadConnective? s = none) : Plain (' ' :: s.toList) where
  noParen := List.forall_mem_cons.mpr ⟨by decide, h.noParen⟩
  noConnective w hw := by
    rw [ledWords_cons_blank (by decide), h.words_eq] at hw
    rcases List.mem_cons.mp hw with rfl | hw
    · simpa [leadConnective?, h.words_eq] using hlead
    · exact h.noConnective w (by rw [h.words_eq]; exact hw)

/-- What stands behind the first word is plain, too. -/
theorem plain_afterFirstWord : Plain (afterFirstWord s) where
  noParen c hc := h.noParen c ((List.dropWhile_sublist _).subset hc)
  noConnective w hw := h.noConnective w (by rw [h.words_eq]; exact hw)

/-- A producible name is the one lexeme of its text. -/
theorem pieceLexemes_eq : pieceLexemes s.toList = [.name s] := by
  rw [pieceLexemes, h.strip_eq, if_neg h.ne_nil, Lexeme.ofText, h.noLiteral]
  simp

end Producible

theorem pieceLexemes_cons_blank {b : Char} (hb : isBlank b) (piece : List Char) :
    pieceLexemes (b :: piece) = pieceLexemes piece := by
  rw [pieceLexemes, strip_cons_blank hb, pieceLexemes]

/-! ## Names of texts -/

namespace Plain

theorem nil : Plain [] := ⟨nofun, nofun⟩

theorem word {letters : List Char} (hl : ∀ c ∈ letters, isWordChar c) : Plain letters where
  noParen c hc := by simpa [isParen] using (isWordChar_iff.mp (hl c hc)).2
  noConnective w hw := by
    rw [ledWords_of_forall fun c hc => (isWordChar_iff.mp (hl c hc)).1] at hw
    cases hw

/-- A plain text stays plain behind further blanks and with a word behind them that does not spell a
connective, or with no word at all. -/
theorem append {piece blanks letters : List Char} (h : Plain piece) (hb : (gap blanks).Sound)
    (hl : ∀ c ∈ letters, isWordChar c) (hword : letters ≠ [] → Connective.ofWord? letters = none) :
    Plain (piece ++ blanks ++ letters) where
  noParen := by
    simp only [List.mem_append]
    rintro c ((hc | hc) | hc)
    · exact h.noParen c hc
    · exact isParen_of_isBlank (hb.2 c hc)
    · exact (word hl).noParen c hc
  noConnective w hw := by
    rw [ledWords_append_blanks piece hb.2 hb.1] at hw
    rcases List.mem_append.mp hw with hw | hw
    · exact h.noConnective w hw
    · by_cases hne : letters = []
      · rw [hne] at hw
        cases hw
      · rw [words_of_forall (fun c hc => (isWordChar_iff.mp (hl c hc)).1) hne] at hw
        rw [List.mem_singleton.mp hw, hword hne]

theorem append_blanks {cs blanks : List Char} (h : Plain cs) (hb : ∀ c ∈ blanks, isBlank c) :
    Plain (cs ++ blanks) where
  noParen c hc := (List.mem_append.mp hc).elim (h.noParen c) fun hc => isParen_of_isBlank (hb c hc)
  noConnective w hw := h.noConnective w (by rwa [ledWords_append_of_blank cs hb] at hw)

/-- A word that does not spell a connective is plain behind blanks. -/
theorem blanks_append_word {blanks letters : List Char} (hb : ∀ c ∈ blanks, isBlank c)
    (hl : ∀ c ∈ letters, isWordChar c) (hword : Connective.ofWord? letters = none) :
    Plain (blanks ++ letters) := by
  by_cases hne : blanks = []
  · rw [hne]
    exact word hl
  · exact nil.append ⟨hne, hb⟩ hl fun _ => hword

/-- The name of a plain piece is producible. -/
theorem producible {piece : List Char} (h : Plain piece) {s : String}
    (hs : .name s ∈ pieceLexemes piece) : Producible s := by
  unfold pieceLexemes at hs
  split at hs
  · cases hs
  · next hne =>
    have hs := List.mem_singleton.mp hs
    unfold Lexeme.ofText at hs
    split at hs
    · cases hs
    · next hlit =>
      cases hs
      refine ⟨by simpa using hne, ?_, ?_, ?_, ?_⟩
      · simp [stripped, strip_strip]
      · intro c hc
        exact h.noParen c (strip_subset _ (by simpa using hc))
      · intro w hw
        rw [String.toList_ofList, ← ledWords_eq_tail (head?_strip piece)] at hw
        exact h.noConnective w (ledWords_strip_subset piece hw)
      · simpa using hlit

end Plain

/-! ## Negations -/

/-- A negation is scanned with its parenthesis, also behind blanks. -/
theorem scanned_negation {before word rest : List Char} {ls : List Lexeme}
    (hblank : ∀ c ∈ before, isBlank c) (hspells : upper word = negationKeyword.toList)
    (hrest : Scanned [] (ofChars rest) ls) :
    Scanned [] (ofChars (before ++ word ++ '(' :: rest)) (.negation :: .opening :: ls) := by
  have hnone : Connective.ofWord? word = none := by
    rw [Connective.ofWord?, hspells]
    rfl
  have hplain : Plain (before ++ word) :=
    .blanks_append_word hblank (isWordChar_of_negation hspells).2 hnone
  have hends : beforeNot? (before ++ word) = some before :=
    beforeNot?_eq_some_iff.mpr ⟨word, rfl, hspells⟩
  rw [ofChars_append_opening]
  exact scanned_plain [] hplain nofun (.negation hends (strip_append_blanks [] hblank) hrest)

end FlagLogic
