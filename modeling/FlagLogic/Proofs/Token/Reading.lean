import FlagLogic.Proofs.Token.Names
import FlagLogic.Proofs.Token.Specification

/-!
A text read piece by piece. Each piece is plain and has its token, if it is not blank, and a mark
ends it; only a piece that is `NOT` behind blanks, and right before a group, is a negation. `ReadAs`
says this of a text and its tokens, with their offsets, and forgets the lumps in which the scanner
reads. Main statements: a text is read as its tokens (`readAs_of_tokenize`), a piece with the mark that
ends it is scanned to their lexemes (`Ends.scanned`), and the names in a text are producible
(`producible_of_tokenize`).
-/

namespace FlagLogic

open Text Lump

/-- What may end a piece, with its lexeme, if `rest` is behind it: a parenthesis, or a whole word that
spells a connective and has a blank before it. An opening parenthesis does not end a piece that ends
in `NOT`. -/
inductive Ends (piece : List Char) : (mark rest : List Char) → Lexeme → Prop
  | opening (noNot : beforeNot? piece = none) (rest : List Char) : Ends piece ['('] rest .opening
  | closing (rest : List Char) : Ends piece [')'] rest .closing
  | connective {c : Connective} {word rest : List Char} (blank : ∃ b ∈ piece.getLast?, isBlank b)
      (spells : upper word = c.keyword.toList) (whole : ∀ d ∈ rest.head?, isWordChar d = false) :
      Ends piece word rest (.connective c)

/-- A text that begins at an offset is read as these tokens. -/
inductive ReadAs : (start : Nat) → List Char → List Token → Prop
  | last {start : Nat} {piece : List Char} (plain : Plain piece) :
      ReadAs start piece (Token.ofPiece? start piece).toList
  | mark {start : Nat} {piece mark rest : List Char} {x : Lexeme} {ts : List Token}
      (plain : Plain piece) (ends : Ends piece mark rest x)
      (next : ReadAs (start + piece.length + mark.length) rest ts) :
      ReadAs start (piece ++ mark ++ rest)
        ((Token.ofPiece? start piece).toList ++ ⟨x, start + piece.length⟩ :: ts)
  | negation {start : Nat} {before word rest : List Char} {ts : List Token}
      (blank : ∀ c ∈ before, isBlank c) (spells : upper word = negationKeyword.toList)
      (next : ReadAs (start + before.length + word.length + 1) rest ts) :
      ReadAs start (before ++ word ++ '(' :: rest)
        (⟨.negation, start + before.length⟩ :: ⟨.opening, start + before.length + word.length⟩ :: ts)

/-! ## Where reading stands -/

/-- Where reading stands: `piece` has been read and is plain, and the lumps are left. A word that has
no gap before it can only stand at the start of a piece. -/
structure Reading (piece : List Char) (lumps : List Lump) : Prop where
  plain : Plain piece
  sound : ∀ l ∈ lumps, l.Sound
  apart : lumps.IsChain Apart
  noWord : NoWord lumps ∨ piece = []

namespace Reading

variable {piece blanks letters : List Char} {l : Lump} {rest : List Lump}

theorem ofChars (cs : List Char) : Reading [] (Lump.ofChars cs) :=
  ⟨.nil, (cut_ofChars cs).sound, (cut_ofChars cs).apart, .inr rfl⟩

/-- Behind a mark a new piece starts. -/
theorem tail (h : Reading piece (l :: rest)) : Reading [] rest where
  plain := .nil
  sound := (List.forall_mem_cons.mp h.sound).2
  apart := (List.isChain_cons.mp h.apart).2
  noWord := .inr rfl

theorem gap (h : Reading piece (.gap blanks :: rest)) : Plain (piece ++ blanks) :=
  h.plain.append_blanks (h.sound _ (List.mem_cons_self ..)).2

theorem readGap (h : Reading piece (.gap blanks :: rest)) (hno : NoWord rest) :
    Reading (piece ++ blanks) rest :=
  ⟨h.gap, h.tail.sound, h.tail.apart, .inl hno⟩

theorem readWords (h : Reading piece (.gap blanks :: .word letters :: rest))
    (hword : Connective.ofWord? letters = none) : Reading (piece ++ blanks ++ letters) rest where
  plain := h.plain.append (h.sound _ (List.mem_cons_self ..))
    (h.tail.sound _ (List.mem_cons_self ..)).2 fun _ => hword
  sound := h.tail.tail.sound
  apart := h.tail.tail.apart
  noWord := .inl (noWord_of_apart h.tail.apart)

theorem readWord (h : Reading piece (.word letters :: rest)) :
    Reading (piece ++ letters) rest where
  plain := by
    obtain rfl := h.noWord.resolve_left fun hno => hno _ _ rfl
    exact .word (h.sound _ (List.mem_cons_self ..)).2
  sound := h.tail.sound
  apart := h.tail.apart
  noWord := .inl (noWord_of_apart h.apart)

end Reading

/-! ## From the scanner -/

theorem blank_of_strip_eq_nil {cs : List Char} (h : strip cs = []) : ∀ c ∈ cs, isBlank c := by
  intro c hc
  cases hb : isBlank c with
  | true => rfl
  | false =>
    have hmem := mem_strip hc hb
    rw [h] at hmem
    cases hmem

theorem eq_ok_of_bind_return {a : Except Error (List Token)} {f : List Token → List Token}
    {ts : List Token} (h : (do
      let us ← a
      return f us) = .ok ts) : ∃ us, a = .ok us ∧ ts = f us := by
  cases a with
  | error e => cases h
  | ok us =>
    cases h
    exact ⟨us, rfl, rfl⟩

/-- What the scanner has read of the piece and the lumps that are left make up a text that is read
piece by piece. -/
theorem readAs_of_scan (text : String) (start : Nat) (piece : List Char) (lumps : List Lump)
    (h : Reading piece lumps) : ∀ ts, scan text start piece lumps = .ok ts →
      ReadAs start (piece ++ lumps.flatMap chars) ts := by
  -- a mark ends the piece, and any other lump becomes part of it
  fun_induction scan text start piece lumps with
  | case1 start piece =>
    intro ts hts
    cases hts
    rw [List.flatMap_nil, List.append_nil]
    exact .last h.plain
  | case2 start piece rest here before hends hblank ih =>
    intro ts hts
    obtain ⟨us, hus, rfl⟩ := eq_ok_of_bind_return hts
    obtain ⟨word, rfl, hspells⟩ := beforeNot?_eq_some_iff.mp hends
    have hhere : here = start + before.length + word.length := by
      rw [Nat.add_assoc, ← List.length_append]
    have hrest := ih h.tail us hus
    rw [hhere] at hrest ⊢
    exact .negation (blank_of_strip_eq_nil hblank) hspells hrest
  | case3 =>
    intro ts hts
    cases hts
  | case4 start piece rest here hends ih =>
    intro ts hts
    obtain ⟨us, hus, rfl⟩ := eq_ok_of_bind_return hts
    rw [List.flatMap_cons, ← List.append_assoc]
    exact .mark h.plain (.opening hends _) (ih h.tail us hus)
  | case5 start piece rest here ih =>
    intro ts hts
    obtain ⟨us, hus, rfl⟩ := eq_ok_of_bind_return hts
    rw [List.flatMap_cons, ← List.append_assoc]
    exact .mark h.plain (.closing _) (ih h.tail us hus)
  | case6 start piece blanks letters rest c hconn here ih =>
    intro ts hts
    obtain ⟨us, hus, rfl⟩ := eq_ok_of_bind_return hts
    obtain ⟨hne, hblank⟩ := h.sound _ (List.mem_cons_self ..)
    have hlast := getLast?_append_blanks piece hblank hne
    have hhere : here = start + (piece ++ blanks).length := by
      rw [List.length_append, ← Nat.add_assoc]
    have hrest := ih h.tail.tail us hus
    rw [hhere] at hrest ⊢
    rw [List.flatMap_cons, List.flatMap_cons, ← List.append_assoc, ← List.append_assoc,
      ← ofPiece?_append_blanks start piece hblank]
    exact .mark h.gap (.connective hlast (ofWord?_eq_some_iff.mp hconn)
      (head?_of_noWord (noWord_of_apart h.tail.apart) h.tail.tail.sound)) hrest
  | case7 start piece blanks letters rest hnone ih =>
    intro ts hts
    have := ih (h.readWords hnone) ts hts
    simpa [chars] using this
  | case8 start piece blanks rest hno ih =>
    intro ts hts
    have := ih (h.readGap hno) ts hts
    simpa [chars] using this
  | case9 start piece letters rest ih =>
    intro ts hts
    have := ih h.readWord ts hts
    simpa [chars] using this

/-- A text is read piece by piece as its tokens. -/
theorem readAs_of_tokenize {text : String} {ts : List Token} (h : tokenize text = .ok ts) :
    ReadAs 0 text.toList ts := by
  have hread := readAs_of_scan text 0 [] _ (Reading.ofChars text.toList) ts h
  rwa [(cut_ofChars text.toList).flatMap_chars] at hread

/-! ## Back to the scanner -/

theorem Plain.trimEnd {piece : List Char} (h : Plain piece) : Plain (trimEnd piece) where
  noParen c hc := by
    obtain ⟨after, heq, -⟩ := trimEnd_append piece
    exact h.noParen c (heq ▸ List.mem_append_left after hc)
  noConnective w hw := h.noConnective w (by rwa [ledWords_trimEnd] at hw)

theorem scanned_last {piece : List Char} (hplain : Plain piece) :
    Scanned [] (ofChars piece) (pieceLexemes piece) := by
  have hread : Scanned [] (ofChars piece ++ []) (pieceLexemes piece) :=
    scanned_plain [] hplain nofun (.nil piece)
  rwa [List.append_nil] at hread

/-- A piece and the mark that ends it are scanned to their lexemes. -/
theorem Ends.scanned {piece mark rest : List Char} {x : Lexeme} {ls : List Lexeme}
    (h : Ends piece mark rest x) (hplain : Plain piece) (hrest : Scanned [] (ofChars rest) ls) :
    Scanned [] (ofChars (piece ++ mark ++ rest)) (pieceLexemes piece ++ x :: ls) := by
  rw [List.append_assoc]
  cases h with
  | opening hno =>
    rw [List.singleton_append, ofChars_append_opening]
    exact scanned_plain [] hplain nofun (.opening hno hrest)
  | closing =>
    rw [List.singleton_append, ofChars_append_closing]
    exact scanned_plain [] hplain nofun (.closing hrest)
  | @connective c _ _ hblank hspells hwhole =>
    -- the blanks at the end of the piece are one gap with the word behind it
    obtain ⟨after, hpiece, hafter⟩ := trimEnd_append piece
    have hfront := hplain.trimEnd
    have hlast := getLast?_trimEnd piece
    generalize trimEnd piece = front at *
    subst hpiece
    have hne : after ≠ [] := by
      rintro rfl
      obtain ⟨b, hb, hblank⟩ := hblank
      rw [List.append_nil] at hb
      rw [hlast b hb] at hblank
      cases hblank
    have hlexemes : pieceLexemes (front ++ after) = pieceLexemes ([] ++ front) := by
      rw [pieceLexemes, strip_append_blanks front hafter]
      rfl
    rw [List.append_assoc, hlexemes]
    refine scanned_append [] hfront hlast (head?_blanks_append hafter hne _) ?_
    rw [ofChars_gap_word ⟨hne, hafter⟩ (isWordChar_of_connective hspells) hwhole]
    exact .connective (ofWord?_eq_some_iff.mpr hspells) hrest

/-! ## Names of texts -/

theorem ReadAs.producible {start : Nat} {cs : List Char} {ts : List Token} (h : ReadAs start cs ts)
    {s : String} (hs : .name s ∈ lexemes ts) : Producible s := by
  induction h with
  | last hplain =>
    rw [lexemes_ofPiece?] at hs
    exact hplain.producible hs
  | mark hplain hends _ ih =>
    rw [lexemes_append, lexemes_ofPiece?, lexemes_cons] at hs
    rcases List.mem_append.mp hs with hs | hs
    · exact hplain.producible hs
    · rcases List.mem_cons.mp hs with rfl | hs
      · cases hends
      · exact ih hs
  | negation _ _ _ ih => exact ih (by simpa using hs)

/-- The names in a text are producible. -/
theorem producible_of_tokenize {text : String} {ts : List Token} (h : tokenize text = .ok ts)
    {s : String} (hs : .name s ∈ lexemes ts) : Producible s :=
  (readAs_of_tokenize h).producible hs

end FlagLogic
