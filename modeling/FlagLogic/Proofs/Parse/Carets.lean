import FlagLogic.Proofs.Parse.Faults

/-!
The caret under a text. The message of a positioned fault shows the whole text, and below it a caret in
the column that the offset within the whole text names. Main statement: the last line of the text and
the caret are the last two lines of the message, so that the caret stands under the reported character
exactly if the first line of the text, which that character is in, is its last line too
(`parse_caret`). Texts of one line always have it there, and texts of several lines do not, unless
their first line is repeated at the end.
-/

namespace FlagLogic

open Text

/-! ## Lines -/

/-- The lines of a text. -/
def lines (cs : List Char) : List (List Char) := pieces (· == '\n') cs

theorem lines_ne_nil (cs : List Char) : lines cs ≠ [] := pieces_ne_nil _ cs

theorem lines_of_not_mem {cs : List Char} (h : '\n' ∉ cs) : lines cs = [cs] := by
  refine pieces_of_forall ?_
  intro c hc
  rw [beq_eq_false_iff_ne]
  rintro rfl
  exact h hc

theorem lines_append (cs ds : List Char) : lines (cs ++ '\n' :: ds) = lines cs ++ lines ds :=
  pieces_append_cons rfl cs ds

/-- `line` is the line of the text that begins at the offset `start`. -/
def LineAt (cs line : List Char) (start : Nat) : Prop :=
  ∃ before after, cs = before ++ line ++ after ∧ before.length = start ∧ '\n' ∉ line
    ∧ (∀ c, before.getLast? = some c → c = '\n') ∧ ∀ c, after.head? = some c → c = '\n'

theorem lineAt_zero_iff {cs line : List Char} :
    LineAt cs line 0 ↔ (lines cs).head? = some line := by
  constructor
  · rintro ⟨before, after, rfl, hstart, hline, -, hafter⟩
    obtain rfl : before = [] := List.length_eq_zero_iff.mp hstart
    cases after with
    | nil => simp [lines_of_not_mem hline]
    | cons c after =>
      obtain rfl : c = '\n' := hafter c rfl
      rw [List.nil_append, lines_append, lines_of_not_mem hline]
      rfl
  · intro h
    by_cases hmem : '\n' ∈ cs
    · obtain ⟨first, after, rfl, hfirst⟩ := List.eq_append_cons_of_mem hmem
      rw [lines_append, lines_of_not_mem hfirst] at h
      cases h
      exact ⟨[], '\n' :: after, rfl, rfl, hfirst, by simp, by simp⟩
    · rw [lines_of_not_mem hmem] at h
      cases h
      exact ⟨[], [], by simp, rfl, hmem, by simp, by simp⟩

/-! ## The caret -/

/-- A number of spaces and a caret behind them. -/
def caretLine (column : Nat) : List Char := List.replicate column ' ' ++ ['^']

theorem newline_not_mem_caretLine (column : Nat) : '\n' ∉ caretLine column := by
  simp [caretLine, List.mem_replicate]

theorem caretLine_inj {m n : Nat} (h : caretLine m = caretLine n) : m = n := by
  have := congrArg List.length h
  simpa [caretLine] using this

/-- The caret at the end of a message stands under a character of a text, given by its offset: the line
above the caret is the line of the text that the character is in, and the caret is in its column. -/
def CaretUnder (message text : List Char) (position : Nat) : Prop :=
  ∃ above line column start, lines message = above ++ [line, caretLine column]
    ∧ LineAt text line start ∧ position = start + column ∧ column < line.length

/-- A positioned message is a header, the expression and the caret, which is in the column that the
position names. -/
theorem lines_located (summary : String) {expression : String} {position : Nat}
    (hpos : 0 < position) (hne : expression ≠ "") :
    ∃ header, lines (Diagnostic.located summary expression position).toList
      = header ++ lines expression.toList ++ [caretLine position] := by
  have hcond : (position : Int) > 0 ∧ expression ≠ "" := ⟨by omega, hne⟩
  have hcaret := lines_of_not_mem (newline_not_mem_caretLine position)
  refine ⟨lines (summary ++ " at position " ++ toString (position : Int) ++ ":").toList, ?_⟩
  rw [← hcaret, ← lines_append, ← lines_append, Diagnostic.located, if_pos hcond]
  congr 1
  simp [caretLine]

/-- A caret in the column that the offset in the whole text names is under the character exactly if the
line above it, the last one, is the first line as well. -/
theorem caretUnder_iff {message text : List Char} {position : Nat} {header : List (List Char)}
    (h : lines message = header ++ lines text ++ [caretLine position]) :
    CaretUnder message text position ↔
      ∃ line, (lines text).head? = some line ∧ (lines text).getLast? = some line
        ∧ position < line.length := by
  constructor
  · rintro ⟨above, line, column, start, hmessage, hline, hposition, hcolumn⟩
    have hends : (above ++ [line]) ++ [caretLine column]
        = (header ++ lines text) ++ [caretLine position] := by
      rw [← h, hmessage, List.append_assoc, List.singleton_append]
    obtain ⟨habove, hcaret⟩ := List.append_inj' hends rfl
    have hlast : (lines text).getLast? = some line := by
      rw [← List.getLast?_append_of_ne_nil header (lines_ne_nil text), ← habove]
      simp
    -- the columns agree, so the line begins where the text does
    obtain rfl : column = position := caretLine_inj (List.singleton_inj.mp hcaret)
    obtain rfl : start = 0 := by omega
    exact ⟨line, lineAt_zero_iff.mp hline, hlast, hcolumn⟩
  · rintro ⟨line, hhead, hlast, hlt⟩
    obtain ⟨others, hothers⟩ := List.getLast?_eq_some_iff.mp hlast
    refine ⟨header ++ others, line, position, 0, ?_, lineAt_zero_iff.mpr hhead, by simp, hlt⟩
    rw [h, hothers]
    simp

/-- A reported position is inside of the text. -/
theorem lt_length_of_parse {limits : Limits} {text source : String} {fault : Fault} {position : Nat}
    (h : parse limits text = .error (.grammar fault source position)) (hpos : 0 < position) :
    source = text ∧ position < text.toList.length := by
  obtain ⟨rfl, horigin⟩ := parse_fault h
  rcases horigin.nonblankAt with hzero | hchar
  · exact absurd hzero (by omega)
  · exact ⟨rfl, hchar.lt_length⟩

/-- **Where the caret stands.** The message of a fault behind the start of a text ends in the lines of
the text and in a caret that has as many spaces before it as characters of the whole text stand before
the position. It stands under the character at the position exactly if this is in the first line and
the first line is also the last; so it does in a text of one line. -/
theorem parse_caret {limits : Limits} {text source : String} {fault : Fault} {position : Nat}
    (h : parse limits text = .error (.grammar fault source position)) (hpos : 0 < position) :
    (∃ header, lines (Error.grammar fault source position).message.toList
      = header ++ lines text.toList ++ [caretLine position])
    ∧ (CaretUnder (Error.grammar fault source position).message.toList text.toList position ↔
        ∃ line, (lines text.toList).head? = some line ∧ (lines text.toList).getLast? = some line
          ∧ position < line.length)
    ∧ ('\n' ∉ text.toList →
        CaretUnder (Error.grammar fault source position).message.toList text.toList position) := by
  obtain ⟨rfl, hlt⟩ := lt_length_of_parse h hpos
  have hne : source ≠ "" := by
    rintro rfl
    exact absurd hlt (by simp)
  obtain ⟨header, hmessage⟩ : ∃ header, lines (Error.grammar fault source position).message.toList
      = header ++ lines source.toList ++ [caretLine position] :=
    lines_located fault.summary hpos hne
  refine ⟨⟨header, hmessage⟩, caretUnder_iff hmessage, ?_⟩
  intro hone
  rw [caretUnder_iff hmessage, lines_of_not_mem hone]
  exact ⟨source.toList, rfl, rfl, hlt⟩

/-- The parenthesis at offset 8 is the third character of the second line, and the caret stands in the
ninth column. -/
theorem parse_caret_at_second_line :
    parse {} "a AND\nb )" = .error (.grammar .unexpectedClosing "a AND\nb )" 8)
    ∧ (Error.grammar .unexpectedClosing "a AND\nb )" 8).message
        = "Unexpected token ) at position 8:\na AND\nb )\n        ^"
    ∧ ¬CaretUnder (Error.grammar .unexpectedClosing "a AND\nb )" 8).message.toList
        "a AND\nb )".toList 8 := by
  have hts : tokenize "a AND\nb )" = .ok [⟨.name "a", 0⟩, ⟨.connective .and, 2⟩, ⟨.name "b", 6⟩,
      ⟨.closing, 8⟩] := rfl
  have hparse : parse {} "a AND\nb )" = .error (.grammar .unexpectedClosing "a AND\nb )" 8) := by
    rw [parse_eq, hts]
    simp only [bind, Except.bind, foldOrder]
    rw [arrange_leaf rfl, FoldOrder.arrange.eq_def]
    simp only
    rw [arrange_leaf rfl, FoldOrder.arrange.eq_def]
    rfl
  refine ⟨hparse, by decide, ?_⟩
  rw [(parse_caret hparse (by decide)).2.1]
  rintro ⟨line, hhead, hlast, -⟩
  rw [show lines "a AND\nb )".toList = ["a AND".toList, "b )".toList] by decide] at hhead hlast
  cases hhead
  cases hlast

end FlagLogic
