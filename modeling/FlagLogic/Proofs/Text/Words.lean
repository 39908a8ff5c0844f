import FlagLogic.Text.Blank
import FlagLogic.Text.Pieces

/-!
Words and blanks. The words of a text are its maximal runs of characters that are not blank; those
with a blank right before them are the led ones, which are all words but one at the very start of
the text. Main statements: a blank parts the words before it from those behind it
(`words_append_blank`, `ledWords_append_blank`), a text is stripped exactly if there are no blanks
at its ends (`strip_eq_self_iff`), blanks at its end do not matter (`strip_append_blanks`), and
stripping makes no further words led (`ledWords_strip_subset`).
-/

namespace FlagLogic.Text

/-! ## Pieces -/

theorem pieces_of_forall {p : Char → Bool} {cs : List Char} (h : ∀ c ∈ cs, p c = false) :
    pieces p cs = [cs] := by
  induction cs with
  | nil => rfl
  | cons c cs ih =>
    have hc : p c = false := h c (by simp)
    rw [pieces, hc, ih fun d hd => h d (by simp [hd])]
    rfl

/-- Cutting at a separator parts the pieces before it from those behind it. -/
theorem pieces_append_cons {p : Char → Bool} {b : Char} (hb : p b) (cs ds : List Char) :
    pieces p (cs ++ b :: ds) = pieces p cs ++ pieces p ds := by
  induction cs with
  | nil => simp [pieces, hb]
  | cons c cs ih =>
    rw [List.cons_append, pieces, pieces, ih]
    split
    · rfl
    · cases h : pieces p cs with
      | nil => exact absurd h (pieces_ne_nil p cs)
      | cons piece rest => rfl

/-! ## Words -/

/-- The words of a text. -/
def words (cs : List Char) : List (List Char) := (pieces isBlank cs).filter (· ≠ [])

/-- The words with a blank right before them. -/
def ledWords (cs : List Char) : List (List Char) := (pieces isBlank cs).tail.filter (· ≠ [])

theorem ledWords_append_blank {b : Char} (hb : isBlank b) (cs ds : List Char) :
    ledWords (cs ++ b :: ds) = ledWords cs ++ words ds := by
  unfold ledWords words
  rw [pieces_append_cons hb, List.tail_append_of_ne_nil (pieces_ne_nil _ _), List.filter_append]

theorem words_append_blank {b : Char} (hb : isBlank b) (cs ds : List Char) :
    words (cs ++ b :: ds) = words cs ++ words ds := by
  unfold words
  rw [pieces_append_cons hb, List.filter_append]

theorem words_cons_blank {b : Char} (hb : isBlank b) (cs : List Char) :
    words (b :: cs) = words cs :=
  words_append_blank hb [] cs

theorem ledWords_cons_blank {b : Char} (hb : isBlank b) (cs : List Char) :
    ledWords (b :: cs) = words cs :=
  ledWords_append_blank hb [] cs

/-- A run of other characters is one word. -/
theorem words_of_forall {cs : List Char} (h : ∀ c ∈ cs, isBlank c = false) (hne : cs ≠ []) :
    words cs = [cs] := by
  unfold words
  rw [pieces_of_forall h]
  simp [hne]

theorem ledWords_of_forall {cs : List Char} (h : ∀ c ∈ cs, isBlank c = false) :
    ledWords cs = [] := by
  unfold ledWords
  rw [pieces_of_forall h]
  rfl

/-- Only the first word of a text may have no blank before it. -/
theorem ledWords_eq_tail {cs : List Char} (h : ∀ c ∈ cs.head?, isBlank c = false) :
    ledWords cs = (words cs).tail := by
  cases cs with
  | nil => rfl
  | cons c cs =>
    unfold ledWords words
    rw [pieces, h c rfl]
    cases hp : pieces isBlank cs with
    | nil => exact absurd hp (pieces_ne_nil _ _)
    | cons piece rest => simp

/-- The first word, and what stands behind it. -/
theorem words_eq_cons {cs : List Char} (hne : cs ≠ []) (hhead : ∀ c ∈ cs.head?, isBlank c = false) :
    words cs = cs.takeWhile (!isBlank ·) :: ledWords (cs.dropWhile (!isBlank ·)) := by
  have hword : ∀ c ∈ cs.takeWhile (!isBlank ·), isBlank c = false := fun c hc => by
    simpa using List.all_eq_true.mp List.all_takeWhile c hc
  have hfirst : cs.takeWhile (!isBlank ·) ≠ [] := by
    cases cs with
    | nil => exact absurd rfl hne
    | cons c cs => simp [hhead c rfl]
  have hrest := List.head?_dropWhile_not (!isBlank ·) cs
  have hsplit : cs = cs.takeWhile (!isBlank ·) ++ cs.dropWhile (!isBlank ·) :=
    List.takeWhile_append_dropWhile.symm
  generalize cs.takeWhile (!isBlank ·) = word at *
  generalize cs.dropWhile (!isBlank ·) = rest at *
  subst hsplit
  cases rest with
  | nil =>
    rw [List.append_nil, words_of_forall hword hfirst]
    rfl
  | cons b rest =>
    have hb : isBlank b := by simpa using hrest
    rw [words_append_blank hb, words_of_forall hword hfirst, ledWords_cons_blank hb]
    rfl

theorem ledWords_subset_words (cs : List Char) : ledWords cs ⊆ words cs := by
  intro w hw
  obtain ⟨hmem, hne⟩ := List.mem_filter.mp hw
  exact List.mem_filter.mpr ⟨List.mem_of_mem_tail hmem, hne⟩

theorem words_blanks_append {bs : List Char} (h : ∀ c ∈ bs, isBlank c) (cs : List Char) :
    words (bs ++ cs) = words cs := by
  induction bs with
  | nil => rfl
  | cons b bs ih =>
    obtain ⟨hb, hbs⟩ := List.forall_mem_cons.mp h
    rw [List.cons_append, words_cons_blank hb, ih hbs]

/-- Behind blanks, all words are led. -/
theorem ledWords_append_blanks (cs : List Char) {bs : List Char} (h : ∀ c ∈ bs, isBlank c)
    (hne : bs ≠ []) (ds : List Char) : ledWords (cs ++ bs ++ ds) = ledWords cs ++ words ds := by
  cases bs with
  | nil => exact absurd rfl hne
  | cons b bs =>
    obtain ⟨hb, hbs⟩ := List.forall_mem_cons.mp h
    rw [List.append_assoc, List.cons_append, ledWords_append_blank hb, words_blanks_append hbs]

/-! ## Stripping -/

theorem isParen_of_isBlank {c : Char} (h : isBlank c) : isParen c = false := by
  cases hp : isParen c with
  | false => rfl
  | true =>
    rcases (by simpa [isParen] using hp : c = '(' ∨ c = ')') with rfl | rfl
    · exact absurd h (by decide)
    · exact absurd h (by decide)

theorem isWordChar_of_isBlank {c : Char} (h : isBlank c) : isWordChar c = false := by
  simp [isWordChar, h]

theorem isWordChar_of_not {c : Char} (hb : isBlank c = false) (hp : isParen c = false) :
    isWordChar c := by
  simp [isWordChar, hb, hp]

/-- No word goes on behind it where a text starts with blanks. -/
theorem head?_blanks_append {bs : List Char} (h : ∀ c ∈ bs, isBlank c) (hne : bs ≠ [])
    (cs : List Char) : ∀ c ∈ (bs ++ cs).head?, isWordChar c = false := by
  obtain ⟨b, bs, rfl⟩ := List.exists_cons_of_ne_nil hne
  intro c hc
  cases hc
  exact isWordChar_of_isBlank (h b (List.mem_cons_self ..))

theorem head?_dropWhile_blank (cs : List Char) :
    ∀ c ∈ (cs.dropWhile isBlank).head?, isBlank c = false := by
  intro c hc
  have := List.head?_dropWhile_not isBlank cs
  rw [hc] at this
  simpa using this

theorem dropWhile_blank_eq_self {cs : List Char} (h : ∀ c ∈ cs.head?, isBlank c = false) :
    cs.dropWhile isBlank = cs := by
  cases cs with
  | nil => rfl
  | cons c cs => rw [List.dropWhile_cons_of_neg (by simp [h c rfl])]

/-- What is trimmed at the end is blank. -/
theorem trimEnd_append (cs : List Char) :
    ∃ after, cs = trimEnd cs ++ after ∧ ∀ c ∈ after, isBlank c := by
  refine ⟨(cs.reverse.takeWhile isBlank).reverse, ?_, fun c hc => ?_⟩
  · rw [trimEnd, ← List.reverse_append, List.takeWhile_append_dropWhile, List.reverse_reverse]
  · exact List.all_eq_true.mp List.all_takeWhile c (List.mem_reverse.mp hc)

theorem head?_trimEnd {cs : List Char} (h : ∀ c ∈ cs.head?, isBlank c = false) :
    ∀ c ∈ (trimEnd cs).head?, isBlank c = false := by
  intro c hc
  obtain ⟨after, heq, -⟩ := trimEnd_append cs
  refine h c ?_
  rw [heq, List.head?_append, hc]
  rfl

theorem getLast?_append_blanks (cs : List Char) {bs : List Char} (h : ∀ c ∈ bs, isBlank c)
    (hne : bs ≠ []) : ∃ b ∈ (cs ++ bs).getLast?, isBlank b := by
  refine ⟨bs.getLast hne, ?_, h _ (List.getLast_mem hne)⟩
  rw [List.getLast?_append, List.getLast?_eq_some_getLast hne]
  rfl

theorem getLast?_trimEnd (cs : List Char) :
    ∀ c ∈ (trimEnd cs).getLast?, isBlank c = false := by
  rw [trimEnd, List.getLast?_reverse]
  exact head?_dropWhile_blank _

theorem head?_strip (cs : List Char) : ∀ c ∈ (strip cs).head?, isBlank c = false :=
  head?_trimEnd (head?_dropWhile_blank cs)

/-- A text is stripped exactly if there are no blanks at its ends. -/
theorem strip_eq_self_iff {cs : List Char} :
    strip cs = cs ↔ (∀ c ∈ cs.head?, isBlank c = false) ∧ ∀ c ∈ cs.getLast?, isBlank c = false := by
  constructor
  · intro h
    rw [← h]
    exact ⟨head?_strip cs, getLast?_trimEnd _⟩
  · rintro ⟨hhead, hlast⟩
    rw [strip, dropWhile_blank_eq_self hhead, trimEnd,
      dropWhile_blank_eq_self (by simpa using hlast), List.reverse_reverse]

theorem strip_strip (cs : List Char) : strip (strip cs) = strip cs :=
  strip_eq_self_iff.mpr ⟨head?_strip cs, getLast?_trimEnd _⟩

theorem strip_cons_blank {b : Char} (hb : isBlank b) (cs : List Char) :
    strip (b :: cs) = strip cs := by
  rw [strip, List.dropWhile_cons_of_pos hb, strip]

theorem strip_blanks_append {bs : List Char} (h : ∀ c ∈ bs, isBlank c) (cs : List Char) :
    strip (bs ++ cs) = strip cs := by
  rw [strip, List.dropWhile_append_of_pos h, strip]

theorem trimEnd_append_blanks (cs : List Char) {bs : List Char} (h : ∀ c ∈ bs, isBlank c) :
    trimEnd (cs ++ bs) = trimEnd cs := by
  rw [trimEnd, List.reverse_append, List.dropWhile_append_of_pos (by simpa using h), trimEnd]

theorem strip_append_blanks (cs : List Char) {bs : List Char} (h : ∀ c ∈ bs, isBlank c) :
    strip (cs ++ bs) = strip cs := by
  rw [strip, List.dropWhile_append]
  split
  · next hempty =>
    have hbs : (bs ++ []).dropWhile isBlank = [] := List.dropWhile_append_of_pos h
    rw [List.append_nil] at hbs
    rw [hbs, strip, List.isEmpty_iff.mp hempty]
  · rw [trimEnd_append_blanks _ h, strip]

/-- What is stripped at the two ends is blank. -/
theorem strip_append (cs : List Char) :
    ∃ after, cs = cs.takeWhile isBlank ++ strip cs ++ after ∧ ∀ c ∈ after, isBlank c := by
  obtain ⟨after, heq, hafter⟩ := trimEnd_append (cs.dropWhile isBlank)
  refine ⟨after, ?_, hafter⟩
  rw [List.append_assoc, strip, ← heq, List.takeWhile_append_dropWhile]

theorem strip_subset (cs : List Char) : strip cs ⊆ cs := by
  intro c hc
  obtain ⟨after, heq, -⟩ := strip_append cs
  rw [heq]
  exact List.mem_append_left _ (List.mem_append_right _ hc)

theorem isBlank_of_mem_takeWhile {c : Char} {cs : List Char} (h : c ∈ cs.takeWhile isBlank) :
    isBlank c :=
  List.all_eq_true.mp List.all_takeWhile c h

/-- Nothing but blanks is stripped. -/
theorem mem_strip {c : Char} {cs : List Char} (h : c ∈ cs) (hc : isBlank c = false) :
    c ∈ strip cs := by
  obtain ⟨after, heq, hafter⟩ := strip_append cs
  rw [heq] at h
  simp only [List.mem_append] at h
  rcases h with (h | h) | h
  · exact absurd (isBlank_of_mem_takeWhile h) (by simp [hc])
  · exact h
  · exact absurd (hafter c h) (by simp [hc])

/-- A text that is not blank has another character behind its leading blanks. -/
theorem leadingBlanks_lt {cs : List Char} (h : strip cs ≠ []) : leadingBlanks cs < cs.length := by
  have hne : cs.dropWhile isBlank ≠ [] := by
    intro hnil
    rw [strip, hnil] at h
    exact h rfl
  have hpos := List.length_pos_iff.mpr hne
  calc leadingBlanks cs < leadingBlanks cs + (cs.dropWhile isBlank).length := by omega
    _ = cs.length := by
      rw [leadingBlanks, ← List.length_append, List.takeWhile_append_dropWhile]

theorem leadingBlanks_append {cs : List Char} (h : strip cs ≠ []) (ds : List Char) :
    leadingBlanks (cs ++ ds) = leadingBlanks cs := by
  have hlt := leadingBlanks_lt h
  rw [leadingBlanks] at hlt ⊢
  rw [List.takeWhile_append, if_neg (Nat.ne_of_lt hlt), leadingBlanks]

theorem words_dropWhile (cs : List Char) : words (cs.dropWhile isBlank) = words cs := by
  induction cs with
  | nil => rfl
  | cons c cs ih =>
    cases hc : isBlank c with
    | true => rw [List.dropWhile_cons_of_pos hc, ih, words_cons_blank hc]
    | false => rw [List.dropWhile_cons_of_neg (by simp [hc])]

theorem ledWords_trimEnd (cs : List Char) : ledWords (trimEnd cs) = ledWords cs := by
  obtain ⟨after, heq, hafter⟩ := trimEnd_append cs
  by_cases hne : after = []
  · rw [hne, List.append_nil] at heq
    rw [← heq]
  · have hled := ledWords_append_blanks (trimEnd cs) hafter hne []
    rw [List.append_nil, ← heq] at hled
    rw [hled]
    exact (List.append_nil _).symm

/-- Blanks at the end of a text make no further words. -/
theorem ledWords_append_of_blank (cs : List Char) {bs : List Char} (h : ∀ c ∈ bs, isBlank c) :
    ledWords (cs ++ bs) = ledWords cs := by
  rw [← ledWords_trimEnd, trimEnd_append_blanks cs h, ledWords_trimEnd]

/-- Stripping makes no further words led. -/
theorem ledWords_strip_subset (cs : List Char) : ledWords (strip cs) ⊆ ledWords cs := by
  rw [strip, ledWords_trimEnd]
  cases cs with
  | nil => exact List.Subset.refl _
  | cons c cs =>
    cases hc : isBlank c with
    | true =>
      rw [List.dropWhile_cons_of_pos hc, ledWords_cons_blank hc, ← words_dropWhile cs]
      exact ledWords_subset_words _
    | false => rw [List.dropWhile_cons_of_neg (by simp [hc])]; exact List.Subset.refl _

end FlagLogic.Text
