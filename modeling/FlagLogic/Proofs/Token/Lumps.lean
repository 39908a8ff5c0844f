import FlagLogic.Proofs.Text.Words
import FlagLogic.Token.Lexer
import Mathlib.Data.List.Chain

/-!
Lumps of a text. `Cut cs lumps` says that these are the lumps of the text. Main statements:
`ofChars` cuts a text (`cut_ofChars`), the lumps make up the text (`Cut.flatMap_chars`) and are
maximal (`Cut.sound`, `Cut.apart`), there is no other way to cut it (`ofChars_flatMap_chars`), so that
a text may be cut on its own where a word ends (`ofChars_append`), and in a text without parentheses
the words behind the first lump are the led ones (`Cut.ledWords_eq`).
-/

namespace FlagLogic.Lump

open Text

/-! ## Cutting as a relation -/

/-- The lumps do not start with a gap. -/
def NoGap (lumps : List Lump) : Prop := ∀ blanks rest, lumps ≠ gap blanks :: rest

/-- The lumps do not start with a word. -/
def NoWord (lumps : List Lump) : Prop := ∀ letters rest, lumps ≠ word letters :: rest

/-- The lumps of a text. A character makes the lump behind it longer if it is of the same sort. -/
inductive Cut : List Char → List Lump → Prop
  | nil : Cut [] []
  | opening {cs : List Char} {lumps : List Lump} (next : Cut cs lumps) :
      Cut ('(' :: cs) (.opening :: lumps)
  | closing {cs : List Char} {lumps : List Lump} (next : Cut cs lumps) :
      Cut (')' :: cs) (.closing :: lumps)
  | longerGap {c : Char} {cs blanks : List Char} {lumps : List Lump} (blank : isBlank c)
      (next : Cut cs (gap blanks :: lumps)) : Cut (c :: cs) (gap (c :: blanks) :: lumps)
  | newGap {c : Char} {cs : List Char} {lumps : List Lump} (blank : isBlank c)
      (noGap : NoGap lumps) (next : Cut cs lumps) : Cut (c :: cs) (gap [c] :: lumps)
  | longerWord {c : Char} {cs letters : List Char} {lumps : List Lump} (letter : isWordChar c)
      (next : Cut cs (word letters :: lumps)) : Cut (c :: cs) (word (c :: letters) :: lumps)
  | newWord {c : Char} {cs : List Char} {lumps : List Lump} (letter : isWordChar c)
      (noWord : NoWord lumps) (next : Cut cs lumps) : Cut (c :: cs) (word [c] :: lumps)

theorem isWordChar_iff {c : Char} :
    isWordChar c ↔ isBlank c = false ∧ c ≠ '(' ∧ c ≠ ')' := by
  simp [isWordChar, isParen]

theorem Cut.push {cs : List Char} {lumps : List Lump} (h : Cut cs lumps) (c : Char) :
    Cut (c :: cs) (push c lumps) := by
  unfold Lump.push
  split
  · next hc => exact hc ▸ .opening h
  · next ho =>
    split
    · next hc => exact hc ▸ .closing h
    · next hc =>
      split
      · next hb =>
        split
        · exact .longerGap hb h
        · next hno => exact .newGap hb (fun blanks rest h => hno blanks rest h) h
      · next hb =>
        have hletter : isWordChar c := isWordChar_iff.mpr ⟨by simpa using hb, ho, hc⟩
        split
        · exact .longerWord hletter h
        · next hno => exact .newWord hletter (fun letters rest h => hno letters rest h) h

theorem cut_ofChars (cs : List Char) : Cut cs (ofChars cs) := by
  induction cs with
  | nil => exact .nil
  | cons c cs ih => exact ih.push c

/-! ## Lumps and their text -/

/-- The lumps make up the text. -/
theorem Cut.flatMap_chars {cs : List Char} {lumps : List Lump} (h : Cut cs lumps) :
    lumps.flatMap chars = cs := by
  induction h with
  | nil => rfl
  | opening _ ih | closing _ ih | newGap _ _ _ ih | newWord _ _ _ ih => simp [chars, ih]
  | longerGap _ _ ih | longerWord _ _ ih =>
    rw [List.flatMap_cons, chars] at ih ⊢
    rw [List.cons_append, ih]

/-- Gaps and words hold what they should, and are not empty. -/
def Sound : Lump → Prop
  | gap blanks => blanks ≠ [] ∧ ∀ c ∈ blanks, isBlank c
  | word letters => letters ≠ [] ∧ ∀ c ∈ letters, isWordChar c
  | _ => True

theorem Cut.sound {cs : List Char} {lumps : List Lump} (h : Cut cs lumps) :
    ∀ l ∈ lumps, l.Sound := by
  induction h with
  | nil => exact nofun
  | opening _ ih | closing _ ih => simpa [Sound] using ih
  | newGap hc _ _ ih | newWord hc _ _ ih => simpa [Sound, hc] using ih
  | longerGap hc _ ih | longerWord hc _ ih =>
    obtain ⟨⟨-, hall⟩, hrest⟩ := List.forall_mem_cons.mp ih
    exact List.forall_mem_cons.mpr ⟨⟨by simp, List.forall_mem_cons.mpr ⟨hc, hall⟩⟩, hrest⟩

/-- The lumps may stand side by side: they are not two gaps, and not two words. -/
def Apart : Lump → Lump → Prop
  | gap _, gap _ | word _, word _ => False
  | _, _ => True

theorem Cut.apart {cs : List Char} {lumps : List Lump} (h : Cut cs lumps) :
    lumps.IsChain Apart := by
  induction h with
  | nil => exact List.isChain_nil
  | opening _ ih | closing _ ih => exact List.isChain_cons.mpr ⟨fun _ _ => trivial, ih⟩
  | newGap _ hno _ ih | newWord _ hno _ ih =>
    refine List.isChain_cons.mpr ⟨fun l hl => ?_, ih⟩
    obtain ⟨rest, rfl⟩ := List.head?_eq_some_iff.mp hl
    cases l <;> first | trivial | exact absurd rfl (hno _ _)
  | longerGap _ _ ih | longerWord _ _ ih =>
    rw [List.isChain_cons] at ih ⊢
    refine ⟨fun l hl => ?_, ih.2⟩
    have := ih.1 l hl
    cases l <;> exact this

theorem noWord_of_apart {letters : List Char} {rest : List Lump}
    (h : (word letters :: rest).IsChain Apart) : NoWord rest := by
  rintro letters' more rfl
  exact (List.isChain_cons.mp h).1 _ rfl

theorem noGap_of_apart {blanks : List Char} {rest : List Lump}
    (h : (gap blanks :: rest).IsChain Apart) : NoGap rest := by
  rintro blanks' more rfl
  exact (List.isChain_cons.mp h).1 _ rfl

/-! ## One way to cut -/

theorem ne_paren_of_isBlank {c : Char} (h : isBlank c) : c ≠ '(' ∧ c ≠ ')' := by
  have := isParen_of_isBlank h
  simpa [isParen] using this

theorem push_gap {c : Char} (hc : isBlank c) (blanks : List Char) (rest : List Lump) :
    push c (gap blanks :: rest) = gap (c :: blanks) :: rest := by
  obtain ⟨hopening, hclosing⟩ := ne_paren_of_isBlank hc
  unfold push
  simp only [hopening, hclosing, hc, if_false, if_true]

theorem push_of_noGap {c : Char} (hc : isBlank c) {lumps : List Lump} (h : NoGap lumps) :
    push c lumps = gap [c] :: lumps := by
  obtain ⟨hopening, hclosing⟩ := ne_paren_of_isBlank hc
  unfold push
  simp only [hopening, hclosing, hc, if_false, if_true]
  split
  · exact absurd rfl (h _ _)
  · rfl

theorem push_word {c : Char} (hc : isWordChar c) (letters : List Char) (rest : List Lump) :
    push c (word letters :: rest) = word (c :: letters) :: rest := by
  obtain ⟨hb, hopening, hclosing⟩ := isWordChar_iff.mp hc
  unfold push
  simp only [hopening, hclosing, hb, if_false, Bool.false_eq_true]

theorem push_of_noWord {c : Char} (hc : isWordChar c) {lumps : List Lump} (h : NoWord lumps) :
    push c lumps = word [c] :: lumps := by
  obtain ⟨hb, hopening, hclosing⟩ := isWordChar_iff.mp hc
  unfold push
  simp only [hopening, hclosing, hb, if_false, Bool.false_eq_true]
  split
  · exact absurd rfl (h _ _)
  · rfl

/-- A text has no other lumps than its own. -/
theorem Cut.ofChars_eq {cs : List Char} {lumps : List Lump} (h : Cut cs lumps) :
    ofChars cs = lumps := by
  induction h with
  | nil => rfl
  | opening _ ih | closing _ ih => rw [← ih]; rfl
  | longerGap hb _ ih => rw [ofChars, List.foldr_cons, ← ofChars, ih, push_gap hb]
  | newGap hb hno _ ih => rw [ofChars, List.foldr_cons, ← ofChars, ih, push_of_noGap hb hno]
  | longerWord hl _ ih => rw [ofChars, List.foldr_cons, ← ofChars, ih, push_word hl]
  | newWord hl hno _ ih => rw [ofChars, List.foldr_cons, ← ofChars, ih, push_of_noWord hl hno]

/-- The last blank starts a gap, and each one before it makes the gap longer. -/
theorem Cut.gap_append {cs : List Char} {lumps : List Lump} (h : Cut cs lumps)
    (hno : NoGap lumps) : ∀ {blanks : List Char}, (gap blanks).Sound →
      Cut (blanks ++ cs) (gap blanks :: lumps)
  | [], hb => absurd rfl hb.1
  | [_], hb => .newGap (hb.2 _ (List.mem_singleton_self _)) hno h
  | _ :: _ :: _, hb =>
    .longerGap (List.forall_mem_cons.mp hb.2).1
      (h.gap_append hno ⟨by simp, (List.forall_mem_cons.mp hb.2).2⟩)

theorem Cut.word_append {cs : List Char} {lumps : List Lump} (h : Cut cs lumps)
    (hno : NoWord lumps) : ∀ {letters : List Char}, (word letters).Sound →
      Cut (letters ++ cs) (word letters :: lumps)
  | [], hl => absurd rfl hl.1
  | [_], hl => .newWord (hl.2 _ (List.mem_singleton_self _)) hno h
  | _ :: _ :: _, hl =>
    .longerWord (List.forall_mem_cons.mp hl.2).1
      (h.word_append hno ⟨by simp, (List.forall_mem_cons.mp hl.2).2⟩)

/-- Sound lumps that may stand side by side are the lumps of their text. -/
theorem cut_flatMap_chars {lumps : List Lump} (hs : ∀ l ∈ lumps, l.Sound)
    (ha : lumps.IsChain Apart) : Cut (lumps.flatMap chars) lumps := by
  induction lumps with
  | nil => exact .nil
  | cons l lumps ih =>
    obtain ⟨hl, hsound⟩ := List.forall_mem_cons.mp hs
    have hcut := ih hsound (List.isChain_cons.mp ha).2
    cases l with
    | opening => exact .opening hcut
    | closing => exact .closing hcut
    | gap blanks => exact hcut.gap_append (noGap_of_apart ha) hl
    | word letters => exact hcut.word_append (noWord_of_apart ha) hl

theorem ofChars_flatMap_chars {lumps : List Lump} (hs : ∀ l ∈ lumps, l.Sound)
    (ha : lumps.IsChain Apart) : ofChars (lumps.flatMap chars) = lumps :=
  (cut_flatMap_chars hs ha).ofChars_eq

/-! ## Cutting a text in two -/

theorem noWord_ofChars {cs : List Char} (h : ∀ c ∈ cs.head?, isWordChar c = false) :
    NoWord (ofChars cs) := by
  have hcut := cut_ofChars cs
  generalize ofChars cs = lumps at hcut
  cases hcut with
  | nil | opening | closing | longerGap | newGap => exact nofun
  | longerWord hl | newWord hl =>
    have hc := h _ (Option.mem_def.mpr List.head?_cons)
    rw [hl] at hc
    cases hc

/-- Two texts keep their lumps where the last lump of the first one may stand before the first lump of
the second one. -/
theorem ofChars_append_of_apart {cs ds : List Char}
    (h : ∀ l ∈ (ofChars cs).getLast?, ∀ m ∈ (ofChars ds).head?, l.Apart m) :
    ofChars (cs ++ ds) = ofChars cs ++ ofChars ds := by
  have hcs := cut_ofChars cs
  have hds := cut_ofChars ds
  have hsound : ∀ l ∈ ofChars cs ++ ofChars ds, l.Sound := fun l hl =>
    (List.mem_append.mp hl).elim (hcs.sound l) (hds.sound l)
  have hcut := ofChars_flatMap_chars hsound (List.isChain_append.mpr ⟨hcs.apart, hds.apart, h⟩)
  rwa [List.flatMap_append, hcs.flatMap_chars, hds.flatMap_chars] at hcut

theorem ofChars_append_opening (cs ds : List Char) :
    ofChars (cs ++ '(' :: ds) = ofChars cs ++ .opening :: ofChars ds :=
  ofChars_append_of_apart fun l _ _ hm => by cases hm; cases l <;> trivial

theorem ofChars_append_closing (cs ds : List Char) :
    ofChars (cs ++ ')' :: ds) = ofChars cs ++ .closing :: ofChars ds :=
  ofChars_append_of_apart fun l _ _ hm => by cases hm; cases l <;> trivial

/-- A text that ends in a letter does not end in a gap. -/
theorem gap_ne_getLast? {cs : List Char} (h : ∀ c ∈ cs.getLast?, isWordChar c)
    (blanks : List Char) : (ofChars cs).getLast? ≠ some (gap blanks) := by
  intro hlast
  have hcut := cut_ofChars cs
  obtain ⟨hne, hblank⟩ := hcut.sound _ (List.mem_of_getLast? hlast)
  obtain ⟨front, hfront⟩ := List.getLast?_eq_some_iff.mp hlast
  have htext := hcut.flatMap_chars
  rw [hfront, List.flatMap_append, List.flatMap_singleton, chars] at htext
  have hend := List.getLast_mem hne
  have hletter := h (blanks.getLast hne) (by
    rw [← htext, List.getLast?_append_of_ne_nil _ hne, List.getLast?_eq_some_getLast hne]
    rfl)
  have hb := hblank _ hend
  rw [(isWordChar_iff.mp hletter).1] at hb
  cases hb

/-- Where a word ends, the text before it and the text behind it have their own lumps. -/
theorem ofChars_append {cs ds : List Char} (hcs : ∀ c ∈ cs.getLast?, isWordChar c)
    (hds : ∀ d ∈ ds.head?, isWordChar d = false) :
    ofChars (cs ++ ds) = ofChars cs ++ ofChars ds := by
  refine ofChars_append_of_apart fun l hl m hm => ?_
  cases m with
  | opening | closing => cases l <;> trivial
  | word letters =>
    obtain ⟨rest, hrest⟩ := List.head?_eq_some_iff.mp hm
    exact absurd hrest (noWord_ofChars hds letters rest)
  | gap blanks =>
    cases l with
    | gap blanks' => exact absurd hl (gap_ne_getLast? hcs blanks')
    | _ => trivial

/-- A gap and the word behind it, up to where the word ends. -/
theorem ofChars_gap_word {blanks letters cs : List Char} (hb : (gap blanks).Sound)
    (hl : (word letters).Sound) (hcs : ∀ c ∈ cs.head?, isWordChar c = false) :
    ofChars (blanks ++ (letters ++ cs)) = gap blanks :: word letters :: ofChars cs :=
  (((cut_ofChars cs).word_append (noWord_ofChars hcs) hl).gap_append nofun hb).ofChars_eq

/-! ## Lumps and words -/

/-- The letters of a word. -/
def word? : Lump → Option (List Char)
  | word letters => some letters
  | _ => none

/-- The letters that the lumps start with. -/
def lead : List Lump → List Char
  | word letters :: _ => letters
  | _ => []

/-- The lumps behind the word that they start with. -/
def behind : List Lump → List Lump
  | word _ :: rest => rest
  | lumps => lumps

theorem lead_behind_of_noWord {lumps : List Lump} (h : NoWord lumps) :
    lead lumps = [] ∧ behind lumps = lumps := by
  cases lumps with
  | nil => exact ⟨rfl, rfl⟩
  | cons l lumps => cases l <;> first | exact ⟨rfl, rfl⟩ | exact absurd rfl (h _ _)

/-- The word at the start is a word like the others. -/
theorem filter_lead_cons {lumps : List Lump} (h : ∀ l ∈ lumps, l.Sound) (ps : List (List Char))
    (hps : ps.filter (· ≠ []) = (behind lumps).filterMap word?) :
    (lead lumps :: ps).filter (· ≠ []) = lumps.filterMap word? := by
  cases lumps with
  | nil => exact hps
  | cons l lumps =>
    cases l with
    | word letters =>
      have hne : letters ≠ [] := (h _ (List.mem_cons_self ..)).1
      rw [lead, List.filter_cons_of_pos (by simpa using hne), hps]
      rfl
    | _ => exact hps

/-- In a text without parentheses the first piece is the word at its start, and the other words are
those of the lumps. -/
theorem Cut.pieces {cs : List Char} {lumps : List Lump} (h : Cut cs lumps)
    (hcs : ∀ c ∈ cs, isParen c = false) :
    ∃ ps, pieces isBlank cs = lead lumps :: ps
      ∧ ps.filter (· ≠ []) = (behind lumps).filterMap word? := by
  induction h with
  | nil => exact ⟨[], rfl, rfl⟩
  | opening | closing => exact absurd (hcs _ (List.mem_cons_self ..)) (by decide)
  | longerGap hb hcut ih | newGap hb _ hcut ih =>
    -- the blank starts a piece, so the word behind it is no longer the first one
    obtain ⟨ps, hps, hfilter⟩ := ih (List.forall_mem_cons.mp hcs).2
    refine ⟨lead _ :: ps, ?_, filter_lead_cons hcut.sound ps hfilter⟩
    rw [Text.pieces, if_pos hb, hps]
    rfl
  | longerWord hl _ ih =>
    obtain ⟨ps, hps, hfilter⟩ := ih (List.forall_mem_cons.mp hcs).2
    refine ⟨ps, ?_, hfilter⟩
    rw [Text.pieces, if_neg (by simp [(isWordChar_iff.mp hl).1]), hps]
    rfl
  | newWord hl hno _ ih =>
    obtain ⟨ps, hps, hfilter⟩ := ih (List.forall_mem_cons.mp hcs).2
    obtain ⟨hlead, hbehind⟩ := lead_behind_of_noWord hno
    rw [hlead] at hps
    rw [hbehind] at hfilter
    refine ⟨ps, ?_, hfilter⟩
    rw [Text.pieces, if_neg (by simp [(isWordChar_iff.mp hl).1]), hps]
    rfl

/-- The led words of a text without parentheses are the words behind its first lump. -/
theorem Cut.ledWords_eq {cs : List Char} {lumps : List Lump} (h : Cut cs lumps)
    (hcs : ∀ c ∈ cs, isParen c = false) : ledWords cs = (behind lumps).filterMap word? := by
  obtain ⟨ps, hps, hfilter⟩ := h.pieces hcs
  rw [ledWords, hps]
  exact hfilter

end FlagLogic.Lump
