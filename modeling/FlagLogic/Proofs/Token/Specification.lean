import FlagLogic.Proofs.Token.Keywords
import FlagLogic.Proofs.Token.Lumps
import FlagLogic.Proofs.Token.Marks
import FlagLogic.Proofs.Token.Scanning

/-!
The tokens of a text are those that are specified. The scanner reads lumps from left to right;
`Scanning` says what it knows of the text on the way: nothing that it has read of the current piece
is a mark. Main statements: every answer of the scanner is exact for what is behind the start of its
piece (`scan_exact`), hence `tokenize` returns the specified tokens in source order, or the error of
the leftmost stray piece if there is one (`tokenize_exact`).
-/

namespace FlagLogic

open Text Lump

/-! ## Where a scan stands -/

/-- Where a scan stands in the text: what is before `start` is done, `piece` has been read behind it
and has no mark in it, and the lumps are left. -/
structure Scanning (cs : List Char) (start : Nat) (piece : List Char) (lumps : List Lump) :
    Prop where
  text : cs.drop start = piece ++ lumps.flatMap chars
  starts : start = 0 ∨ ∃ k x, Mark cs k start x
  unmarked : ∀ {k l x}, Mark cs k l x → l ≤ start ∨ start + piece.length ≤ k
  sound : ∀ l ∈ lumps, l.Sound
  apart : lumps.IsChain Apart

section Regions

variable {cs letters blanks more : List Char} {a k l : Nat} {x : Lexeme}

theorem char_of_drop {xs : List Char} (h : cs.drop a = xs ++ more) (hk : a ≤ k)
    (hlt : k < a + xs.length) : ∃ c ∈ xs, cs[k]? = some c := by
  have hin : k - a < xs.length := by omega
  refine ⟨xs[k - a], List.getElem_mem hin, ?_⟩
  calc cs[k]? = cs[a + (k - a)]? := by rw [Nat.add_sub_cancel' hk]
    _ = (cs.drop a)[k - a]? := List.getElem?_drop.symm
    _ = some xs[k - a] := by
      rw [h, List.getElem?_append_left hin, List.getElem?_eq_getElem hin]

/-- No mark starts among blanks. -/
theorem Mark.not_in_blanks (h : Mark cs k l x) (hdrop : cs.drop a = blanks ++ more)
    (hb : ∀ c ∈ blanks, isBlank c) (hk : a ≤ k) : a + blanks.length ≤ k := by
  refine Nat.not_lt.mp fun hlt => ?_
  obtain ⟨c, hc, hget⟩ := char_of_drop hdrop hk hlt
  obtain ⟨d, hd, hnb⟩ := h.chars.2 k (Nat.le_refl _) h.lt
  rw [hget] at hd
  cases hd
  rw [hb c hc] at hnb
  cases hnb

/-- A mark at a letter is an operator word, with a blank before it. -/
theorem Mark.at_letter (h : Mark cs k l x) {c : Char} (hget : cs[k]? = some c)
    (hc : isWordChar c) : ∃ i b d, k = i + 1 ∧ cs[i]? = some b ∧ isBlank b
      ∧ upper (wordAt cs k) = d.keyword.toList ∧ x = .connective d := by
  cases h with
  | opening h' | closing h' =>
    rw [hget] at h'
    cases h'
    exact absurd hc (by decide)
  | @connective i b d hb hblank hspells => exact ⟨i, b, d, rfl, hb, hblank, hspells, rfl⟩

/-- No mark starts among letters, but possibly with the first one. -/
theorem Mark.not_in_letters (h : Mark cs k l x) (hdrop : cs.drop a = letters ++ more)
    (hl : ∀ c ∈ letters, isWordChar c) (hfirst : k ≠ a) (hk : a ≤ k) :
    a + letters.length ≤ k := by
  refine Nat.not_lt.mp fun hlt => ?_
  obtain ⟨c, hc, hget⟩ := char_of_drop hdrop hk hlt
  obtain ⟨i, b, -, rfl, hb, hblank, -⟩ := h.at_letter hget (hl c hc)
  obtain ⟨d, hd, hget'⟩ := char_of_drop (k := i) hdrop (by omega) (by omega)
  rw [hb] at hget'
  cases hget'
  rw [isBlank_of_isWordChar (hl _ hd)] at hblank
  cases hblank

end Regions

/-- Behind lumps that do not start with a word, no word goes on. -/
theorem head?_of_noWord {lumps : List Lump} (hno : NoWord lumps) (hs : ∀ l ∈ lumps, l.Sound) :
    ∀ c ∈ (lumps.flatMap chars).head?, isWordChar c = false := by
  intro c hc
  cases lumps with
  | nil => cases hc
  | cons l lumps =>
    cases l with
    | opening => cases hc; decide
    | closing => cases hc; decide
    | word letters => exact absurd rfl (hno letters lumps)
    | gap blanks =>
      obtain ⟨hne, hb⟩ := hs _ (List.mem_cons_self ..)
      exact head?_blanks_append hb hne _ c hc

namespace Scanning

variable {cs piece : List Char} {start : Nat} {lumps : List Lump}

/-- A scan begins with the whole text. -/
theorem ofChars (cs : List Char) : Scanning cs 0 [] (Lump.ofChars cs) where
  text := (cut_ofChars cs).flatMap_chars.symm
  starts := .inl rfl
  unmarked _ := .inr (Nat.zero_le _)
  sound := (cut_ofChars cs).sound
  apart := (cut_ofChars cs).apart

theorem drop_piece (h : Scanning cs start piece lumps) :
    cs.drop (start + piece.length) = lumps.flatMap chars := by
  rw [← List.drop_drop, h.text, List.drop_left]

theorem extract_piece (h : Scanning cs start piece lumps) :
    cs.extract start (start + piece.length) = piece := by
  rw [List.extract_eq_take_drop, h.text, Nat.add_sub_cancel_left, List.take_left]

section Lump

variable {l : Lump} {rest : List Lump} (h : Scanning cs start piece (l :: rest))
include h

theorem drop_lump : cs.drop (start + piece.length) = l.chars ++ rest.flatMap chars := by
  rw [h.drop_piece, List.flatMap_cons]

theorem sound_head : l.Sound := h.sound l (List.mem_cons_self ..)

theorem sound_tail : ∀ m ∈ rest, m.Sound := fun m hm => h.sound m (List.mem_cons_of_mem _ hm)

/-- A lump without marks becomes part of the piece. -/
theorem read (hun : ∀ {k m x}, Mark cs k m x → start + piece.length ≤ k →
      start + piece.length + l.chars.length ≤ k) : Scanning cs start (piece ++ l.chars) rest where
  text := by rw [h.text, List.flatMap_cons, List.append_assoc]
  starts := h.starts
  unmarked hm := by
    rw [List.length_append, ← Nat.add_assoc]
    rcases h.unmarked hm with hle | hle
    · exact .inl hle
    · exact .inr (hun hm hle)
  sound := h.sound_tail
  apart := (List.isChain_cons.mp h.apart).2

/-- Behind a mark, a new piece begins. -/
theorem pass {x : Lexeme}
    (hm : Mark cs (start + piece.length) (start + piece.length + l.chars.length) x) :
    Scanning cs (start + piece.length + l.chars.length) [] rest where
  text := by rw [← List.drop_drop, h.drop_lump, List.drop_left, List.nil_append]
  starts := .inr ⟨_, x, hm⟩
  unmarked {k m y} hm' := by
    have hlt := hm.lt
    rcases Nat.lt_trichotomy k (start + piece.length) with hk | rfl | hk
    · have := hm'.stop_le hm hk
      exact .inl (by omega)
    · exact .inl (Nat.le_of_eq (hm'.unique hm).1)
    · exact .inr (hm.stop_le hm' hk)
  sound := h.sound_tail
  apart := (List.isChain_cons.mp h.apart).2

end Lump

section Word

variable {letters : List Char} {rest : List Lump}
  (h : Scanning cs start piece (.word letters :: rest))
include h

theorem wordAt_eq : wordAt cs (start + piece.length) = letters :=
  FlagLogic.wordAt_eq h.drop_lump h.sound_head.2
    (head?_of_noWord (noWord_of_apart h.apart) h.sound_tail)

/-- What a mark at the word would be. -/
theorem mark_at_word {l : Nat} {x : Lexeme} (hm : Mark cs (start + piece.length) l x) :
    ∃ i b c, start + piece.length = i + 1 ∧ cs[i]? = some b ∧ isBlank b
      ∧ Connective.ofWord? letters = some c ∧ x = .connective c := by
  have hpos := List.length_pos_iff.mpr h.sound_head.1
  obtain ⟨c, hc, hget⟩ := char_of_drop h.drop_lump (Nat.le_refl _) (Nat.lt_add_of_pos_right hpos)
  obtain ⟨i, b, d, hi, hb, hblank, hspells, hx⟩ := hm.at_letter hget (h.sound_head.2 c hc)
  rw [h.wordAt_eq] at hspells
  exact ⟨i, b, d, hi, hb, hblank, ofWord?_eq_some_iff.mpr hspells, hx⟩

/-- A word that is not a mark becomes part of the piece. -/
theorem readWord (hno : ∀ l x, ¬Mark cs (start + piece.length) l x) :
    Scanning cs start (piece ++ letters) rest := by
  refine h.read fun {k m x} hm hk => ?_
  refine hm.not_in_letters h.drop_lump h.sound_head.2 ?_ hk
  rintro rfl
  exact hno m x hm

end Word

theorem readGap {blanks : List Char} {rest : List Lump}
    (h : Scanning cs start piece (.gap blanks :: rest)) :
    Scanning cs start (piece ++ blanks) rest :=
  h.read fun hm hk => hm.not_in_blanks h.drop_lump h.sound_head.2 hk

/-- A word that does not spell a connective is not a mark. -/
theorem not_mark_of_ofWord? {letters : List Char} {rest : List Lump}
    (h : Scanning cs start piece (.word letters :: rest))
    (hword : Connective.ofWord? letters = none) (l : Nat) (x : Lexeme) :
    ¬Mark cs (start + piece.length) l x := by
  intro hm
  obtain ⟨i, b, c, -, -, -, hc, -⟩ := h.mark_at_word hm
  rw [hword] at hc
  cases hc

/-- A word at the start of a piece is not a mark: no blank is before it. -/
theorem not_mark_at_start {letters : List Char} {rest : List Lump}
    (h : Scanning cs start [] (.word letters :: rest)) (l : Nat) (x : Lexeme) :
    ¬Mark cs (start + 0) l x := by
  intro hm
  obtain ⟨i, b, c, hi, hb, hblank, -, -⟩ := h.mark_at_word hm
  rw [List.length_nil, Nat.add_zero] at hi
  rcases h.starts with h0 | ⟨k, y, hbefore⟩
  · omega
  · have hlt := hbefore.lt
    obtain ⟨d, hd, hnb⟩ := hbefore.chars.2 i (by omega) (by omega)
    rw [hb] at hd
    cases hd
    rw [hnb] at hblank
    cases hblank

/-- An operator word is a mark: a blank is before it. -/
theorem mark_connective {blanks letters : List Char} {c : Connective} {rest : List Lump}
    (h : Scanning cs start piece (.gap blanks :: .word letters :: rest))
    (hword : Connective.ofWord? letters = some c) :
    Mark cs (start + (piece ++ blanks).length)
      (start + (piece ++ blanks).length + letters.length) (.connective c) := by
  have hpos := List.length_pos_iff.mpr h.sound_head.1
  obtain ⟨b, hb, hget⟩ := char_of_drop (k := start + piece.length + (blanks.length - 1))
    h.drop_lump (by omega) (by simp only [chars]; omega)
  have hspells := h.readGap.wordAt_eq
  have hi : start + (piece ++ blanks).length = start + piece.length + (blanks.length - 1) + 1 := by
    rw [List.length_append]
    omega
  rw [hi] at hspells ⊢
  rw [← hspells] at hword ⊢
  exact .connective hget (h.sound_head.2 b hb) (ofWord?_eq_some_iff.mp hword)

/-- A parenthesis stands right behind the piece. -/
theorem char_head {l : Lump} {c : Char} {rest : List Lump} (h : Scanning cs start piece (l :: rest))
    (hl : l.chars = [c]) : cs[start + piece.length]? = some c := by
  have hdrop := h.drop_lump
  rw [hl] at hdrop
  obtain ⟨d, hd, hget⟩ := char_of_drop hdrop (Nat.le_refl _) (Nat.lt_succ_self _)
  rw [hget, List.mem_singleton.mp hd]

/-- What has been read up to a mark or to the end of the text is a piece. -/
theorem isPiece (h : Scanning cs start piece lumps) (hstops : start + piece.length = cs.length
      ∨ ∃ k x, Mark cs (start + piece.length) k x) : Piece cs start (start + piece.length) where
  le := Nat.le_add_right ..
  starts := h.starts
  stops := hstops
  unmarked := h.unmarked

theorem length_eq (h : Scanning cs start piece []) : start + piece.length = cs.length := by
  have hdrop := congrArg List.length h.drop_piece
  have hstart : start ≤ cs.length := by
    rcases h.starts with h0 | ⟨k, x, hm⟩
    · omega
    · exact hm.le_length
  have htext := congrArg List.length h.text
  simp at hdrop htext
  omega

theorem extract_before (h : Scanning cs start piece lumps) :
    cs.extract start (start + piece.length - 3) = piece.take (piece.length - 3) := by
  rw [List.extract_eq_take_drop, h.text, List.take_append_of_le_length (by omega)]
  congr 1
  omega

/-- A scan finds out in the piece whether it ends in `NOT`. -/
theorem beforeNot?_eq_some_iff {before : List Char} {rest : List Lump}
    (h : Scanning cs start piece (.opening :: rest)) :
    beforeNot? piece = some before ↔ EndsInNot cs start (start + piece.length)
      ∧ before = cs.extract start (start + piece.length - 3) := by
  have hlast : 3 ≤ piece.length → cs.extract (start + piece.length - 3) (start + piece.length)
      = piece.drop (piece.length - 3) := by
    intro hlong
    rw [List.extract_eq_take_drop, Nat.add_sub_assoc hlong, ← List.drop_drop, h.text,
      List.drop_append_of_le_length (by omega), List.take_append_of_le_length (by simp; omega)]
    exact List.take_of_length_le (by simp; omega)
  have hbefore : beforeNot? piece =
      if upper (piece.drop (piece.length - 3)) = negationKeyword.toList
        then some (piece.take (piece.length - 3)) else none := rfl
  rw [h.extract_before, hbefore]
  split
  · next hspells =>
    have hlen : (piece.drop (piece.length - 3)).length = 3 := length_of_upper hspells (by decide)
    have hlong : 3 ≤ piece.length := by
      rw [List.length_drop] at hlen
      omega
    rw [← hlast hlong] at hspells
    have hends : EndsInNot cs start (start + piece.length) :=
      ⟨h.char_head rfl, by omega, hspells⟩
    simp [hends, eq_comm]
  · next hspells =>
    simp only [reduceCtorEq, false_iff, not_and]
    intro hends
    have := hends.long
    have hspells' := hends.spells
    rw [hlast (by omega)] at hspells'
    exact absurd hspells' hspells

end Scanning

/-! ## The token of a piece -/

theorem content_iff {cs : List Char} {x : Lexeme} : Content cs x ↔ x = Lexeme.ofText cs := by
  constructor
  · intro h
    cases h with
    | literal b hspells => rw [Lexeme.ofText, literalOfText?_eq_some_iff.mpr hspells]
    | name hno =>
      have hnone : literalOfText? cs = none := by
        rw [Option.eq_none_iff_forall_ne_some]
        exact fun b hb => hno b (literalOfText?_eq_some_iff.mp hb)
      rw [Lexeme.ofText, hnone]
  · rintro rfl
    unfold Lexeme.ofText
    split
    · next b hb => exact .literal b (literalOfText?_eq_some_iff.mp hb)
    · next hnone =>
      refine .name fun b hb => ?_
      rw [literalOfText?_eq_some_iff.mpr hb] at hnone
      cases hnone

/-- A piece that does not end in `NOT` has the token of its text. -/
theorem mem_ofPiece? {cs : List Char} {i j : Nat} {t : Token} (hno : ¬EndsInNot cs i j) :
    t ∈ (Token.ofPiece? i (cs.extract i j)).toList ↔ OfPiece cs i j t := by
  unfold Token.ofPiece?
  constructor
  · intro h
    split at h
    · cases h
    · next hne =>
      rw [List.mem_singleton.mp h]
      exact .content hno hne (content_iff.mpr rfl)
  · intro h
    cases h with
    | content _ hne hx =>
      rw [if_neg hne, content_iff.mp hx]
      exact List.mem_singleton.mpr rfl
    | negation hends _ => exact absurd hends hno

/-- Blanks at the end of a piece do not matter. -/
theorem ofPiece?_append_blanks (i : Nat) (piece : List Char) {blanks : List Char}
    (hb : ∀ c ∈ blanks, isBlank c) :
    Token.ofPiece? i (piece ++ blanks) = Token.ofPiece? i piece := by
  unfold Token.ofPiece?
  rw [strip_append_blanks piece hb]
  split
  · rfl
  · next hne => rw [leadingBlanks_append hne]

/-! ## Exact answers -/

/-- The tokens are in source order. -/
def Ordered (ts : List Token) : Prop := ts.Pairwise fun t u => t.position < u.position

theorem ordered_of_length {ts : List Token} (h : ts.length ≤ 1) : Ordered ts := by
  match ts, h with
  | [], _ => exact List.Pairwise.nil
  | [t], _ => exact List.pairwise_singleton _ t

/-- The answer of a scanner is right about what is behind `start` in the text. -/
inductive Exact (text : String) (start : Nat) : Except Error (List Token) → Prop
  | ok {ts : List Token} (ordered : Ordered ts)
      (mem : ∀ t, t ∈ ts ↔ Specified text.toList t ∧ start ≤ t.position)
      (noStray : ∀ {i j}, Stray text.toList i j → i < start) : Exact text start (.ok ts)
  | stray {i j : Nat} (stray : Stray text.toList i j) (le : start ≤ i)
      (first : ∀ {k l}, Stray text.toList k l → start ≤ k → i ≤ k) :
      Exact text start (.error (strayError text i j))

section Behind

variable {cs : List Char} {i j k l : Nat} {x : Lexeme}

/-- Behind the start of a piece are its token, the mark that ends it, and what is behind that. -/
theorem specified_behind_iff (hp : Piece cs i j) (hm : Mark cs j k x) (t : Token) :
    Specified cs t ∧ i ≤ t.position ↔
      OfPiece cs i j t ∨ t = ⟨x, j⟩ ∨ (Specified cs t ∧ k ≤ t.position) := by
  have hlt := hm.lt
  have hle := hp.le
  constructor
  · rintro ⟨ht, hpos⟩
    cases ht with
    | @mark a b y hm' =>
      have hlt' := hm'.lt
      have hun := hp.unmarked hm'
      simp only at hpos
      rcases Nat.lt_trichotomy j a with hja | rfl | hja
      · exact .inr (.inr ⟨.mark hm', hm.stop_le hm' hja⟩)
      · exact .inr (.inl (by rw [(hm.unique hm').2]))
      · omega
    | @piece a b _ hp' ht =>
      have hb := ht.position
      rcases hp.eq_or_apart hp' with ⟨rfl, rfl⟩ | hja | hbi
      · exact .inl ht
      · have hun := hp'.unmarked hm
        have hle' := hp'.le
        exact .inr (.inr ⟨.piece hp' ht, by omega⟩)
      · omega
  · rintro (ht | rfl | ⟨ht, hpos⟩)
    · exact ⟨.piece hp ht, ht.position.1⟩
    · exact ⟨.mark hm, hle⟩
    · exact ⟨ht, by omega⟩

/-- Behind the start of the last piece is only its own token. -/
theorem specified_last_iff (hp : Piece cs i cs.length) (t : Token) :
    Specified cs t ∧ i ≤ t.position ↔ OfPiece cs i cs.length t := by
  constructor
  · rintro ⟨ht, hpos⟩
    cases ht with
    | mark hm' =>
      have hlt' := hm'.lt
      have hle' := hm'.le_length
      have hun := hp.unmarked hm'
      simp only at hpos
      omega
    | piece hp' ht =>
      have hb := ht.position
      have hle' := hp'.le_length
      have := hp'.le
      rcases hp.eq_or_apart hp' with ⟨rfl, rfl⟩ | hja | hbi
      · exact ht
      · omega
      · omega
  · intro ht
    exact ⟨.piece hp ht, ht.position.1⟩

/-- Behind the start of a piece, a stray piece is this one or behind the mark that ends it. -/
theorem stray_behind (hp : Piece cs i j) (hm : Mark cs j k x) {a b : Nat} (hs : Stray cs a b)
    (hia : i ≤ a) : (a = i ∧ b = j) ∨ k ≤ a := by
  have hlt := hm.lt
  have hle := hs.piece.le
  have hun := hs.piece.unmarked hm
  rcases hp.eq_or_apart hs.piece with ⟨rfl, rfl⟩ | hja | hbi
  · exact .inl ⟨rfl, rfl⟩
  · exact .inr (by omega)
  · omega

end Behind

/-- The answer for a piece that is not stray and for the mark behind it, put in front of the answer
for the rest. -/
theorem Exact.cons {text : String} {i j k : Nat} {x : Lexeme} {front : List Token}
    {a : Except Error (List Token)} (ha : Exact text k a) (hp : Piece text.toList i j)
    (hm : Mark text.toList j k x) (hfront : ∀ t, t ∈ front ↔ OfPiece text.toList i j t)
    (hone : front.length ≤ 1) (hno : ¬Stray text.toList i j) :
    Exact text i (do
      let ts ← a
      return front ++ ⟨x, j⟩ :: ts) := by
  have hlt := hm.lt
  have hle := hp.le
  cases ha with
  | @ok ts hordered hmem hnoStray =>
    refine .ok ?_ (fun t => ?_) fun {a b} hs => ?_
    · refine List.pairwise_append.mpr
        ⟨ordered_of_length hone, List.pairwise_cons.mpr ⟨?_, hordered⟩, ?_⟩
      · intro u hu
        have := ((hmem u).mp hu).2
        simp only
        omega
      · intro t ht u hu
        have htj := ((hfront t).mp ht).position.2
        rcases List.mem_cons.mp hu with rfl | hu
        · exact htj
        · have := ((hmem u).mp hu).2
          omega
    · rw [specified_behind_iff hp hm, List.mem_append, List.mem_cons, hfront, hmem]
    · refine Nat.not_le.mp fun hia => ?_
      rcases stray_behind hp hm hs hia with ⟨rfl, rfl⟩ | hka
      · exact hno hs
      · have := hnoStray hs
        omega
  | @stray a b hs hka hfirst =>
    refine .stray hs (by omega) fun {c d} hs' hic => ?_
    rcases stray_behind hp hm hs' hic with ⟨rfl, rfl⟩ | hkc
    · exact absurd hs' hno
    · exact hfirst hs' hkc

/-! ## The scanner -/

namespace Scanning

variable {text : String} {start stop : Nat} {piece : List Char} {lumps : List Lump} {x : Lexeme}
  {a : Except Error (List Token)}

theorem mem_ofPiece? (h : Scanning text.toList start piece lumps)
    (hno : ¬EndsInNot text.toList start (start + piece.length)) (t : Token) :
    t ∈ (Token.ofPiece? start piece).toList ↔
      OfPiece text.toList start (start + piece.length) t := by
  rw [← FlagLogic.mem_ofPiece? hno, h.extract_piece]

theorem length_ofPiece? (start : Nat) (piece : List Char) :
    (Token.ofPiece? start piece).toList.length ≤ 1 := by
  cases Token.ofPiece? start piece <;> simp

/-- The end of the text. -/
theorem exact_last (h : Scanning text.toList start piece []) :
    Exact text start (.ok (Token.ofPiece? start piece).toList) := by
  have hp := h.isPiece (.inl h.length_eq)
  have hno : ¬EndsInNot text.toList start (start + piece.length) := fun hends => by
    have := hends.opening
    rw [h.length_eq, List.getElem?_eq_none (Nat.le_refl _)] at this
    cases this
  have hmem := h.mem_ofPiece? hno
  rw [h.length_eq] at hp hno hmem
  refine .ok (ordered_of_length (length_ofPiece? start piece)) (fun t => ?_) fun {i j} hs => ?_
  · rw [specified_last_iff hp, hmem]
  · -- a stray piece would have to be this one
    refine Nat.not_le.mp fun hi => ?_
    have hle := hs.piece.le_length
    rcases hp.eq_or_apart hs.piece with ⟨rfl, rfl⟩ | hlt | hlt
    · exact hno hs.ends
    · have := hs.piece.le
      omega
    · have := hs.piece.le
      omega

/-- A mark behind a piece that does not end in `NOT`. -/
theorem exact_piece (h : Scanning text.toList start piece lumps)
    (hm : Mark text.toList (start + piece.length) stop x)
    (hno : ¬EndsInNot text.toList start (start + piece.length)) (ha : Exact text stop a) :
    Exact text start (do
      let ts ← a
      return (Token.ofPiece? start piece).toList ++ ⟨x, start + piece.length⟩ :: ts) :=
  ha.cons (h.isPiece (.inr ⟨_, _, hm⟩)) hm (h.mem_ofPiece? hno) (length_ofPiece? start piece)
    fun hs => hno hs.ends

/-- A parenthesis behind `NOT` on its own. -/
theorem exact_negation {before : List Char} {rest : List Lump}
    (h : Scanning text.toList start piece (.opening :: rest))
    (hends : beforeNot? piece = some before) (hblank : strip before = [])
    (ha : Exact text (start + piece.length + 1) a) :
    Exact text start (do
      let ts ← a
      return ⟨.negation, start + before.length⟩ :: ⟨.opening, start + piece.length⟩ :: ts) := by
  have hm := Mark.opening (h.char_head rfl)
  obtain ⟨hnot, hbefore⟩ := h.beforeNot?_eq_some_iff.mp hends
  have hlong := hnot.long
  have hpos : start + before.length = start + piece.length - 3 := by
    have hlen := hm.le_length
    rw [hbefore, List.length_take, List.length_drop]
    omega
  rw [hbefore] at hblank
  have hfront : ∀ t, t ∈ [(⟨.negation, start + before.length⟩ : Token)] ↔
      OfPiece text.toList start (start + piece.length) t := by
    intro t
    rw [List.mem_singleton, hpos]
    constructor
    · rintro rfl
      exact .negation hnot hblank
    · intro ht
      cases ht with
      | content hno => exact absurd hnot hno
      | negation => rfl
  exact ha.cons (h.isPiece (.inr ⟨_, _, hm⟩)) hm hfront (Nat.le_refl _)
    fun hs => hs.nonblank hblank

/-- A parenthesis behind a stray piece. -/
theorem exact_stray {before : List Char} {rest : List Lump}
    (h : Scanning text.toList start piece (.opening :: rest))
    (hends : beforeNot? piece = some before) (hne : strip before ≠ []) :
    Exact text start (.error (.grammar (.textBeforeNot (String.ofList (strip before))) text
      (start + leadingBlanks before))) := by
  have hm := Mark.opening (h.char_head rfl)
  obtain ⟨hnot, hbefore⟩ := h.beforeNot?_eq_some_iff.mp hends
  have hs : Stray text.toList start (start + piece.length) :=
    ⟨h.isPiece (.inr ⟨_, _, hm⟩), hnot, hbefore ▸ hne⟩
  have hlead : leadingBlanks piece = leadingBlanks before := by
    rw [← List.take_append_drop (piece.length - 3) piece, ← h.extract_before, ← hbefore,
      leadingBlanks_append hne]
  have hexact := Exact.stray hs (Nat.le_refl _) fun _ hle => hle
  rwa [strayError, h.extract_piece, ← hbefore, hlead] at hexact

end Scanning

/-- Every answer of the scanner is exact for what is behind the start of its piece. A word with no
gap before it can only be read at the start of a piece. -/
theorem scan_exact (text : String) (start : Nat) (piece : List Char) (lumps : List Lump)
    (h : Scanning text.toList start piece lumps) (hword : NoWord lumps ∨ piece = []) :
    Exact text start (scan text start piece lumps) := by
  fun_induction scan text start piece lumps with
  | case1 start piece => exact h.exact_last
  | case2 start piece rest here before hends hblank ih =>
    exact h.exact_negation hends hblank (ih (h.pass (.opening (h.char_head rfl))) (.inr rfl))
  | case3 start piece rest before hends hne => exact h.exact_stray hends hne
  | case4 start piece rest here hends ih =>
    have hm := Mark.opening (h.char_head rfl)
    refine h.exact_piece hm (fun hnot => ?_) (ih (h.pass hm) (.inr rfl))
    rw [h.beforeNot?_eq_some_iff.mpr ⟨hnot, rfl⟩] at hends
    cases hends
  | case5 start piece rest here ih =>
    have hm := Mark.closing (h.char_head rfl)
    refine h.exact_piece hm (fun hnot => ?_) (ih (h.pass hm) (.inr rfl))
    have hopening := hnot.opening
    rw [h.char_head rfl] at hopening
    cases hopening
  | case6 start piece blanks letters rest c hconn here ih =>
    have hm := h.mark_connective hconn
    have hno : ¬EndsInNot text.toList start (start + (piece ++ blanks).length) := fun hnot =>
      (hm.ne_paren hnot.opening).1 rfl
    have hlen : start + (piece ++ blanks).length = here := by
      rw [List.length_append, ← Nat.add_assoc]
    have hpass := h.readGap.pass hm
    rw [chars, hlen] at hpass
    have hrest := ih hpass (.inr rfl)
    rw [← hlen] at hrest
    have hexact := h.readGap.exact_piece hm hno hrest
    rwa [ofPiece?_append_blanks start piece h.sound_head.2, hlen] at hexact
  | case7 start piece blanks letters rest hnone ih =>
    have hread := h.readGap.readWord (h.readGap.not_mark_of_ofWord? hnone)
    exact ih hread (.inl (noWord_of_apart (List.isChain_cons.mp h.apart).2))
  | case8 start piece blanks rest hno ih =>
    exact ih h.readGap (.inl hno)
  | case9 start piece letters rest ih =>
    obtain rfl := hword.resolve_left fun hno => hno _ _ rfl
    exact ih (h.readWord h.not_mark_at_start) (.inl (noWord_of_apart h.apart))

/-! ## The tokens of a text -/

theorem exact_tokenize (text : String) : Exact text 0 (tokenize text) :=
  scan_exact text 0 [] _ (Scanning.ofChars text.toList) (.inr rfl)

/-- Tokens in source order are known from which ones they are. -/
theorem Ordered.eq_of_mem_iff {ts us : List Token} (ht : Ordered ts) (hu : Ordered us)
    (h : ∀ t, t ∈ ts ↔ t ∈ us) : ts = us := by
  have hnodup : ∀ {vs : List Token}, Ordered vs → vs.Nodup := fun hv =>
    hv.imp fun {t u} hlt heq => by
      rw [heq] at hlt
      exact Nat.lt_irrefl _ hlt
  have hperm := (List.perm_ext_iff_of_nodup (hnodup ht) (hnodup hu)).mpr h
  exact hperm.eq_of_pairwise (fun t u _ _ htu hut => absurd htu (Nat.lt_asymm hut)) ht hu

/-- Stray pieces that start at the same offset are the same. -/
theorem Stray.stop_eq {cs : List Char} {i j l : Nat} (h : Stray cs i j) (h' : Stray cs i l) :
    j = l :=
  Nat.le_antisymm (h.piece.stop_le_of_start_eq h'.piece) (h'.piece.stop_le_of_start_eq h.piece)

/-- **The tokens of a text are those that are specified.** A text has tokens exactly if no piece of
it is stray, and then they are the specified ones, each at its offset, in source order; else it is
refused for its leftmost stray piece. -/
theorem tokenize_exact (text : String) :
    (∀ ts, tokenize text = .ok ts ↔ (∀ i j, ¬Stray text.toList i j) ∧ Ordered ts
      ∧ ∀ t, t ∈ ts ↔ Specified text.toList t)
    ∧ ∀ e, tokenize text = .error e ↔ ∃ i j, Stray text.toList i j
      ∧ (∀ k l, Stray text.toList k l → i ≤ k) ∧ e = strayError text i j := by
  have hexact := exact_tokenize text
  generalize tokenize text = answer at hexact
  cases hexact with
  | @ok us hordered hmem hnone =>
    have hno : ∀ i j, ¬Stray text.toList i j := fun i j hs => Nat.not_lt_zero i (hnone hs)
    have hmem : ∀ t, t ∈ us ↔ Specified text.toList t := fun t => by simpa using hmem t
    constructor
    · intro ts
      constructor
      · rintro ⟨⟩
        exact ⟨hno, hordered, hmem⟩
      · rintro ⟨-, hordered', hmem'⟩
        rw [hordered.eq_of_mem_iff hordered' fun t => (hmem t).trans (hmem' t).symm]
    · intro e
      constructor
      · rintro ⟨⟩
      · rintro ⟨i, j, hs, -⟩
        exact absurd hs (hno i j)
  | @stray i j hs _ hfirst =>
    have hfirst : ∀ k l, Stray text.toList k l → i ≤ k := fun k l hs' => hfirst hs' (Nat.zero_le k)
    constructor
    · intro ts
      constructor
      · rintro ⟨⟩
      · rintro ⟨hno, -⟩
        exact absurd hs (hno i j)
    · intro e
      constructor
      · rintro ⟨⟩
        exact ⟨i, j, hs, hfirst, rfl⟩
      · rintro ⟨k, l, hs', hfirst', rfl⟩
        obtain rfl := Nat.le_antisymm (hfirst k l hs') (hfirst' i j hs)
        rw [hs.stop_eq hs']

/-- `ANDNOT` is one word and no operator, so that text is left before the `NOT` that it ends in. -/
example : tokenize "a ANDNOT(b)" = .error (strayError "a ANDNOT(b)" 0 8) := rfl

end FlagLogic
