import FlagLogic.Proofs.Token.Specification

/-!
Where tokens stand. Main statements: a token of a text stands at a character that is not blank
(`nonblankAt_of_mem_tokenize`), and so does the fault of a stray piece (`Stray.nonblankAt`); a text
has no token of an unknown kind (`ne_unknown_of_mem_tokenize`).
-/

namespace FlagLogic

open Text

/-- The text has a character at this offset, and it is not blank. -/
def NonblankAt (cs : List Char) (i : Nat) : Prop := ∃ c, cs[i]? = some c ∧ isBlank c = false

theorem NonblankAt.lt_length {cs : List Char} {i : Nat} (h : NonblankAt cs i) : i < cs.length := by
  obtain ⟨c, hc, -⟩ := h
  exact (List.getElem?_eq_some_iff.mp hc).1

/-! ## Pieces of text -/

/-- A text that is not blank has such a character behind its leading blanks. -/
theorem nonblankAt_leadingBlanks {cs : List Char} (h : strip cs ≠ []) :
    NonblankAt cs (leadingBlanks cs) := by
  cases hd : cs.dropWhile isBlank with
  | nil =>
    rw [strip, hd] at h
    exact absurd rfl h
  | cons c ds =>
    refine ⟨c, ?_, head?_dropWhile_blank cs c (by simp [hd])⟩
    calc cs[leadingBlanks cs]?
        = (cs.takeWhile isBlank ++ cs.dropWhile isBlank)[leadingBlanks cs]? := by
          rw [List.takeWhile_append_dropWhile]
      _ = some c := by simp [leadingBlanks, hd]

/-- A character of an extract is one of the text. -/
theorem NonblankAt.of_extract {cs : List Char} {i j k : Nat} (h : NonblankAt (cs.extract i j) k) :
    NonblankAt cs (i + k) := by
  obtain ⟨c, hc, hblank⟩ := h
  have hlt := (List.getElem?_eq_some_iff.mp hc).1
  refine ⟨c, ?_, hblank⟩
  rw [List.length_take] at hlt
  rwa [List.extract_eq_take_drop, List.getElem?_take_of_lt (by omega), List.getElem?_drop] at hc

theorem nonblankAt_of_extract {cs : List Char} {i j : Nat} (h : strip (cs.extract i j) ≠ []) :
    NonblankAt cs (i + leadingBlanks (cs.extract i j)) :=
  (nonblankAt_leadingBlanks h).of_extract

/-- The first letter of `NOT`, in any case, is not blank. -/
theorem nonblankAt_of_spells {cs : List Char} (h : upper cs = negationKeyword.toList) :
    NonblankAt cs 0 := by
  have hword := (isWordChar_of_negation h).2
  cases cs with
  | nil => cases h
  | cons n cs => exact ⟨n, rfl, isBlank_of_isWordChar (hword n (List.mem_cons_self ..))⟩

/-! ## Tokens -/

theorem OfPiece.nonblankAt {cs : List Char} {i j : Nat} {t : Token} (h : OfPiece cs i j t) :
    NonblankAt cs t.position := by
  cases h with
  | content _ hne _ => exact nonblankAt_of_extract hne
  | negation hends _ => exact (nonblankAt_of_spells hends.spells).of_extract

theorem Specified.nonblankAt {cs : List Char} {t : Token} (h : Specified cs t) :
    NonblankAt cs t.position := by
  cases h with
  | mark hm => exact hm.chars.2 _ (Nat.le_refl _) hm.lt
  | piece _ ht => exact ht.nonblankAt

theorem Specified.ne_unknown {cs : List Char} {t : Token} (h : Specified cs t) (kind : String) :
    t.lexeme ≠ .unknown kind := by
  cases h with
  | mark hm => cases hm <;> simp
  | piece _ ht =>
    cases ht with
    | content _ _ hcontent => cases hcontent <;> simp
    | negation => simp

theorem specified_of_mem_tokenize {text : String} {ts : List Token} {t : Token}
    (hts : tokenize text = .ok ts) (ht : t ∈ ts) : Specified text.toList t := by
  have hexact := exact_tokenize text
  rw [hts] at hexact
  cases hexact with
  | ok _ hmem _ => exact ((hmem t).mp ht).1

/-- A token stands at a character that is not blank. -/
theorem nonblankAt_of_mem_tokenize {text : String} {ts : List Token} {t : Token}
    (hts : tokenize text = .ok ts) (ht : t ∈ ts) : NonblankAt text.toList t.position :=
  (specified_of_mem_tokenize hts ht).nonblankAt

/-- No text has a token of an unknown kind. -/
theorem ne_unknown_of_mem_tokenize {text : String} {ts : List Token} {t : Token}
    (hts : tokenize text = .ok ts) (ht : t ∈ ts) (kind : String) : t.lexeme ≠ .unknown kind :=
  (specified_of_mem_tokenize hts ht).ne_unknown kind

/-! ## Stray pieces -/

/-- A stray piece is reported at a character that is not blank. -/
theorem Stray.nonblankAt {cs : List Char} {i j : Nat} (h : Stray cs i j) :
    NonblankAt cs (i + leadingBlanks (cs.extract i j)) := by
  have hlong := h.ends.long
  -- the text before the `NOT` is the beginning of the piece
  have hsplit : cs.extract i j = cs.extract i (j - 3) ++ (cs.drop (j - 3)).take 3 := by
    have hlength : j - i = j - 3 - i + 3 := by omega
    have hstart : i + (j - 3 - i) = j - 3 := by omega
    rw [List.extract_eq_take_drop, List.extract_eq_take_drop, hlength, List.take_add,
      List.drop_drop, hstart]
  rw [hsplit, leadingBlanks_append h.nonblank]
  exact nonblankAt_of_extract h.nonblank

theorem tokenize_eq_error {text : String} {e : Error} (h : tokenize text = .error e) :
    ∃ i j, Stray text.toList i j ∧ e = strayError text i j := by
  have hexact := exact_tokenize text
  rw [h] at hexact
  cases hexact with
  | @stray i j hs => exact ⟨i, j, hs, rfl⟩

end FlagLogic
