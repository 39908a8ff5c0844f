import FlagLogic.Proofs.Token.Nesting
import FlagLogic.Token.Lexer
import FlagLogic.Trace

/-!
Scanning as a relation. `Scanned piece lumps ls` says which lexemes a text gives that is cut into
`lumps`, where `piece` is what has been read of the current piece; offsets and errors are left out.
Main statements: `scan` computes exactly this relation, and fails only with a fault of the grammar
(`scan_answer`, `scan_of_scanned`); a negation is always fused to its parenthesis
(`fused_of_tokenize`).
-/

namespace FlagLogic

open Text

/-- The lexeme of a piece of text; none if the piece is blank. -/
def pieceLexemes (piece : List Char) : List Lexeme :=
  if strip piece = [] then [] else [Lexeme.ofText (strip piece)]

theorem lexemes_ofPiece? (start : Nat) (piece : List Char) :
    lexemes (Token.ofPiece? start piece).toList = pieceLexemes piece := by
  unfold Token.ofPiece? pieceLexemes
  split <;> rfl

theorem flat_pieceLexemes (piece : List Char) :
    ∀ x ∈ pieceLexemes piece, x ≠ .opening ∧ x ≠ .closing := by
  unfold pieceLexemes Lexeme.ofText
  split
  · exact nofun
  · split <;> simp

/-- The lexemes of lumps that follow the characters of `piece`. -/
inductive Scanned : (piece : List Char) → List Lump → List Lexeme → Prop
  | nil (piece : List Char) : Scanned piece [] (pieceLexemes piece)
  | negation {piece before : List Char} {rest : List Lump} {ls : List Lexeme}
      (ends : beforeNot? piece = some before) (blank : strip before = [])
      (next : Scanned [] rest ls) :
      Scanned piece (.opening :: rest) (.negation :: .opening :: ls)
  | opening {piece : List Char} {rest : List Lump} {ls : List Lexeme}
      (ends : beforeNot? piece = none) (next : Scanned [] rest ls) :
      Scanned piece (.opening :: rest) (pieceLexemes piece ++ .opening :: ls)
  | closing {piece : List Char} {rest : List Lump} {ls : List Lexeme} (next : Scanned [] rest ls) :
      Scanned piece (.closing :: rest) (pieceLexemes piece ++ .closing :: ls)
  | connective {piece blanks letters : List Char} {c : Connective} {rest : List Lump}
      {ls : List Lexeme} (word : Connective.ofWord? letters = some c) (next : Scanned [] rest ls) :
      Scanned piece (.gap blanks :: .word letters :: rest)
        (pieceLexemes piece ++ .connective c :: ls)
  | words {piece blanks letters : List Char} {rest : List Lump} {ls : List Lexeme}
      (word : Connective.ofWord? letters = none)
      (next : Scanned (piece ++ blanks ++ letters) rest ls) :
      Scanned piece (.gap blanks :: .word letters :: rest) ls
  | gap {piece blanks : List Char} {rest : List Lump} {ls : List Lexeme}
      (noWord : ∀ letters more, rest ≠ .word letters :: more)
      (next : Scanned (piece ++ blanks) rest ls) : Scanned piece (.gap blanks :: rest) ls
  | word {piece letters : List Char} {rest : List Lump} {ls : List Lexeme}
      (next : Scanned (piece ++ letters) rest ls) : Scanned piece (.word letters :: rest) ls

/-! ## The relation and the function -/

/-- What `scan` may answer for these lumps. -/
inductive ScanAnswer (text : String) (piece : List Char) (lumps : List Lump)
    (answer : Except Error (List Token)) : Prop
  | ok (ts : List Token) (heq : answer = .ok ts) (scanned : Scanned piece lumps (lexemes ts))
  | grammar (fault : Fault) (position : Nat)
      (heq : answer = .error (.grammar fault text position))

/-- Tokens that stand before those of the rest. -/
theorem ScanAnswer.bind {text : String} {piece : List Char} {lumps rest : List Lump}
    {a : Except Error (List Token)} {f : List Token → List Token}
    (ha : ScanAnswer text [] rest a)
    (hf : ∀ {ts}, Scanned [] rest (lexemes ts) → Scanned piece lumps (lexemes (f ts))) :
    ScanAnswer text piece lumps (do
      let ts ← a
      return f ts) := by
  cases ha with
  | ok ts heq h => exact .ok _ (by rw [heq]; rfl) (hf h)
  | grammar fault position heq => exact .grammar fault position (by rw [heq]; rfl)

/-- The lumps of a piece are read like the piece with them. -/
theorem ScanAnswer.read {text : String} {piece piece' : List Char} {lumps rest : List Lump}
    {a : Except Error (List Token)} (ha : ScanAnswer text piece' rest a)
    (hf : ∀ {ls}, Scanned piece' rest ls → Scanned piece lumps ls) :
    ScanAnswer text piece lumps a := by
  cases ha with
  | ok ts heq h => exact .ok ts heq (hf h)
  | grammar fault position heq => exact .grammar fault position heq

/-- Every answer of `scan` is tokens with the lexemes of the lumps, or a fault of the grammar. -/
theorem scan_answer (text : String) (start : Nat) (piece : List Char) (lumps : List Lump) :
    ScanAnswer text piece lumps (scan text start piece lumps) := by
  fun_induction scan text start piece lumps with
  | case1 start piece =>
    refine .ok _ rfl ?_
    rw [lexemes_ofPiece?]
    exact .nil piece
  | case2 start piece rest here before hends hblank ih =>
    exact ih.bind (Scanned.negation hends hblank)
  | case3 => exact .grammar _ _ rfl
  | case4 start piece rest here hends ih =>
    refine ih.bind fun h => ?_
    rw [lexemes_append, lexemes_ofPiece?]
    exact .opening hends h
  | case5 start piece rest here ih =>
    refine ih.bind fun h => ?_
    rw [lexemes_append, lexemes_ofPiece?]
    exact .closing h
  | case6 start piece blanks letters rest c hword here ih =>
    refine ih.bind fun h => ?_
    rw [lexemes_append, lexemes_ofPiece?]
    exact .connective hword h
  | case7 start piece blanks letters rest hword ih => exact ih.read (Scanned.words hword)
  | case8 start piece blanks rest hno ih => exact ih.read (Scanned.gap hno)
  | case9 start piece letters rest ih => exact ih.read Scanned.word

/-- Lumps with lexemes are scanned to tokens with these lexemes, whatever the offset. -/
theorem scan_of_scanned {piece : List Char} {lumps : List Lump} {ls : List Lexeme}
    (h : Scanned piece lumps ls) (text : String) (start : Nat) :
    ∃ ts, scan text start piece lumps = .ok ts ∧ lexemes ts = ls := by
  induction h generalizing start with
  | nil piece => exact ⟨_, rfl, lexemes_ofPiece? start piece⟩
  | @negation piece before rest ls hends hblank _ ih =>
    obtain ⟨ts, hts, rfl⟩ := ih (start + piece.length + 1)
    exact ⟨_, by simp only [scan, hends, hblank, if_true, hts]; rfl, rfl⟩
  | @opening piece rest ls hends _ ih =>
    obtain ⟨ts, hts, rfl⟩ := ih (start + piece.length + 1)
    refine ⟨_, by simp only [scan, hends, hts]; rfl, ?_⟩
    rw [lexemes_append, lexemes_ofPiece?]
    rfl
  | @closing piece rest ls _ ih =>
    obtain ⟨ts, hts, rfl⟩ := ih (start + piece.length + 1)
    refine ⟨_, by simp only [scan, hts]; rfl, ?_⟩
    rw [lexemes_append, lexemes_ofPiece?]
    rfl
  | @connective piece blanks letters c rest ls hword _ ih =>
    obtain ⟨ts, hts, rfl⟩ := ih (start + piece.length + blanks.length + letters.length)
    refine ⟨_, by simp only [scan, hword, hts]; rfl, ?_⟩
    rw [lexemes_append, lexemes_ofPiece?]
    rfl
  | @words piece blanks letters rest ls hword _ ih =>
    obtain ⟨ts, hts, rfl⟩ := ih start
    exact ⟨ts, by simp only [scan, hword, hts], rfl⟩
  | @gap piece blanks rest ls hno _ ih =>
    obtain ⟨ts, hts, rfl⟩ := ih start
    refine ⟨ts, ?_, rfl⟩
    rw [scan.eq_def]
    split <;> simp_all
  | @word piece letters rest ls _ ih =>
    obtain ⟨ts, hts, rfl⟩ := ih start
    exact ⟨ts, by rw [scan, hts], rfl⟩

theorem tokenize_of_scanned {text : String} {ls : List Lexeme}
    (h : Scanned [] (Lump.ofChars text.toList) ls) :
    ∃ ts, tokenize text = .ok ts ∧ lexemes ts = ls :=
  scan_of_scanned h text 0

theorem scanned_of_tokenize {text : String} {ts : List Token} (h : tokenize text = .ok ts) :
    Scanned [] (Lump.ofChars text.toList) (lexemes ts) := by
  cases scan_answer text 0 [] (Lump.ofChars text.toList) with
  | ok us heq hs =>
    obtain rfl : us = ts := by rw [← tokenize, h] at heq; cases heq; rfl
    exact hs
  | grammar _ _ heq => rw [← tokenize, h] at heq; cases heq

theorem tokenize_error {text : String} {e : Error} (h : tokenize text = .error e) :
    ∃ fault position, e = .grammar fault text position := by
  cases scan_answer text 0 [] (Lump.ofChars text.toList) with
  | ok _ heq => rw [← tokenize, h] at heq; cases heq
  | grammar fault position heq =>
    rw [← tokenize, h] at heq
    cases heq
    exact ⟨fault, position, rfl⟩

/-! ## Fused negations -/

theorem Fused.pieceLexemes {ls : List Lexeme} (piece : List Char) (h : Fused ls) :
    Fused (pieceLexemes piece ++ ls) := by
  unfold FlagLogic.pieceLexemes
  split
  · exact h
  · refine ⟨fun hneg => ?_, h⟩
    unfold Lexeme.ofText at hneg
    split at hneg <;> cases hneg

theorem Scanned.fused {piece : List Char} {lumps : List Lump} {ls : List Lexeme}
    (h : Scanned piece lumps ls) : Fused ls := by
  induction h with
  | nil piece =>
    rw [← List.append_nil (FlagLogic.pieceLexemes piece)]
    exact Fused.pieceLexemes piece trivial
  | negation _ _ _ ih => exact ⟨fun _ => rfl, nofun, ih⟩
  | opening _ _ ih | closing _ ih | connective _ _ ih =>
    exact Fused.pieceLexemes _ ⟨nofun, ih⟩
  | words _ _ ih | gap _ _ ih | word _ ih => exact ih

/-- A negation is always fused to its parenthesis. -/
theorem fused_of_tokenize {text : String} {ts : List Token} (h : tokenize text = .ok ts) :
    Fused (lexemes ts) :=
  (scanned_of_tokenize h).fused

end FlagLogic
