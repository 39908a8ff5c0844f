import FlagLogic.Proofs.Formula.CanonicalText
import FlagLogic.Proofs.Parse.Thresholds

/-!
Texts put together. A parsed text may stand in a group, and groups may be negated and connected: the
formula is that of the parts, whatever the parts look like inside. Main statements: the text of a
group is read as on its own (`scanned_body`), lexemes that fold do so in groups
(`Folds.group`, `Folds.negation`, `Folds.binary`), and hence parsing is compositional
(`parse_compose`).
-/

namespace FlagLogic

open Text Lump FoldOrder Fold

/-! ## Reading a group -/

/-- A text before a closing parenthesis is read as on its own. -/
theorem Scanned.append_closing {piece : List Char} {lumps more : List Lump} {ls ms : List Lexeme}
    (h : Scanned piece lumps ls) (hmore : Scanned [] more ms) :
    Scanned piece (lumps ++ .closing :: more) (ls ++ .closing :: ms) := by
  induction h with
  | nil piece => exact .closing hmore
  | negation hends hblank _ ih => exact .negation hends hblank ih
  | opening hends _ ih =>
    rw [List.append_assoc]
    exact .opening hends ih
  | closing _ ih =>
    rw [List.append_assoc]
    exact .closing ih
  | connective hword _ ih =>
    rw [List.append_assoc]
    exact .connective hword ih
  | words hword _ ih => exact .words hword ih
  | @gap piece blanks rest ls hno _ ih =>
    refine .gap ?_ ih
    cases rest with
    | nil => exact nofun
    | cons l rest =>
      rintro letters more ⟨⟩
      exact hno _ _ rfl
  | word _ ih => exact .word ih

/-- The text of a group is read as on its own. -/
theorem scanned_body {cs rest : List Char} {ls ms : List Lexeme}
    (h : Scanned [] (Lump.ofChars cs) ls) (hrest : Scanned [] (Lump.ofChars rest) ms) :
    Scanned [] (Lump.ofChars (cs ++ ')' :: rest)) (ls ++ .closing :: ms) := by
  rw [ofChars_append_closing]
  exact h.append_closing hrest

theorem scanned_nil : Scanned [] (Lump.ofChars []) [] := .nil []

/-! ## Folding a group -/

namespace Folds

variable {ls ms : List Lexeme} {f g : Formula}

theorem group (h : Folds ls f) : Folds (.opening :: ls ++ [.closing]) f := by
  obtain ⟨nodes, harr, hsteps⟩ := h
  have hgroup := Arranged.group (p := none) harr (.nil none)
  simp only [waiting, List.append_nil] at hgroup
  exact ⟨nodes, hgroup, hsteps⟩

theorem negation (h : Folds ls f) : Folds (.negation :: .opening :: ls ++ [.closing]) (.not f) := by
  obtain ⟨nodes, harr, hsteps⟩ := h
  refine ⟨nodes ++ [.not .hole], ?_, fun stack => ?_⟩
  · simpa [waiting] using Arranged.negation (p := none) harr (.nil none)
  · rw [steps?_append, hsteps]
    rfl

theorem binary (c : Connective) (h : Folds ls f) (h' : Folds ms g) :
    Folds (.opening :: ls ++ .closing :: .connective c :: .opening :: ms ++ [.closing])
      (.binary c f g) := by
  obtain ⟨ns, harr, hns⟩ := h
  obtain ⟨os, harr', hos⟩ := h'
  refine ⟨ns ++ os ++ [.binary c .hole .hole], ?_, fun stack => ?_⟩
  · have hright := Arranged.group (p := some c) harr' (.nil none)
    have := Arranged.group (p := none) harr hright.connective
    simpa [waiting] using this
  · rw [steps?_append, steps?_append, hns, Option.bind_some, hos]
    rfl

end Folds

/-! ## Parsing what is put together -/

theorem parse_eq_ok_iff_of_scanned {limits : Limits} {text : String} {ls : List Lexeme}
    {f g : Formula} (h : Scanned [] (Lump.ofChars text.toList) ls) (hf : Folds ls f) :
    parse limits text = .ok g ↔ g = f ∧ limits.Admits f.size (nesting ls) := by
  obtain ⟨ts, hts, rfl⟩ := tokenize_of_scanned h
  exact parse_eq_ok_iff_of_folds hts hf

section Parts

variable {limits : Limits} {t u : String} {ls ms : List Lexeme} {f g r : Formula}
  (ht : Scanned [] (Lump.ofChars t.toList) ls) (hf : Folds ls f)
  (hu : Scanned [] (Lump.ofChars u.toList) ms) (hg : Folds ms g)
include ht hf

theorem parse_group : parse limits ("(" ++ t ++ ")") = .ok r ↔
    r = f ∧ limits.Admits f.size (nesting ls + 1) := by
  have hread : Scanned [] (Lump.ofChars ("(" ++ t ++ ")").toList)
      (.opening :: ls ++ [.closing]) := by
    have := scanned_group .whole (scanned_body ht scanned_nil)
    simpa [Formula.Place.gap] using this
  have hnesting : nesting (.opening :: ls ++ [.closing]) = nesting ls + 1 := by
    rw [nesting_group [] hf.balanced]
    exact Nat.max_eq_left (Nat.zero_le _)
  rw [parse_eq_ok_iff_of_scanned hread hf.group, hnesting]

theorem parse_negation : parse limits ("NOT(" ++ t ++ ")") = .ok r ↔
    r = .not f ∧ limits.Admits (f.size + 1) (nesting ls + 1) := by
  have hread : Scanned [] (Lump.ofChars ("NOT(" ++ t ++ ")").toList)
      (.negation :: .opening :: ls ++ [.closing]) := by
    have := scanned_negation (Formula.Place.isBlank_of_mem_gap .whole) upper_negationKeyword
      (scanned_body ht scanned_nil)
    simpa [Formula.Place.gap, negationKeyword] using this
  have hnesting : nesting (.negation :: .opening :: ls ++ [.closing]) = nesting ls + 1 := by
    rw [List.cons_append, nesting_cons (by simp), nesting_group [] hf.balanced]
    exact Nat.max_eq_left (Nat.zero_le _)
  rw [parse_eq_ok_iff_of_scanned hread hf.negation, hnesting]
  rfl

include hu hg in
theorem parse_binary (c : Connective) :
    parse limits ("(" ++ t ++ ") " ++ c.keyword ++ " (" ++ u ++ ")") = .ok r ↔
      r = .binary c f g
      ∧ limits.Admits (f.size + g.size + 1) (max (nesting ls) (nesting ms) + 1) := by
  have hread : Scanned [] (Lump.ofChars ("(" ++ t ++ ") " ++ c.keyword ++ " (" ++ u ++ ")").toList)
      (.opening :: ls ++ .closing :: .connective c :: .opening :: ms ++ [.closing]) := by
    have hright := scanned_group .right (scanned_body hu scanned_nil)
    have hmiddle : Scanned []
        (Lump.ofChars (' ' :: c.keyword.toList ++ ' ' :: '(' :: (u.toList ++ [')'])))
        (.connective c :: .opening :: (ms ++ [.closing])) :=
      (Follows.connective c hright).scanned []
    have := scanned_group .whole (scanned_body ht hmiddle)
    simpa [Formula.Place.gap] using this
  have hnesting :
      nesting (.opening :: ls ++ .closing :: .connective c :: .opening :: ms ++ [.closing])
        = max (nesting ls) (nesting ms) + 1 := by
    calc nesting (.opening :: ls ++ .closing :: .connective c :: .opening :: ms ++ [.closing])
        = nesting
            (.opening :: ls ++ .closing :: (.connective c :: (.opening :: ms ++ [.closing]))) := by
          simp
      _ = max (nesting ls + 1) (max (nesting ms + 1) (nesting [])) := by
          rw [nesting_group _ hf.balanced, nesting_cons (by simp), nesting_group [] hg.balanced]
      _ = max (nesting ls) (nesting ms) + 1 := by
          have hnil : nesting [] = 0 := rfl
          omega
  rw [parse_eq_ok_iff_of_scanned hread (hf.binary c hg), hnesting]
  rfl

end Parts

/-- **Parsing is compositional.** Texts that are parsed under some limits are parsed in a group, in
a negated group and in connected groups, to the formula made of theirs, exactly under limits that
admit all of its nodes and one more level of nesting. -/
theorem parse_compose {lt lu : Limits} {t u : String} {f g : Formula} (ht : parse lt t = .ok f)
    (hu : parse lu u = .ok g) (limits : Limits) (r : Formula) :
    (parse limits ("(" ++ t ++ ")") = .ok r ↔
      r = f ∧ limits.Admits f.size (parenNesting t + 1))
    ∧ (parse limits ("NOT(" ++ t ++ ")") = .ok r ↔
      r = .not f ∧ limits.Admits (f.size + 1) (parenNesting t + 1))
    ∧ ∀ c : Connective, parse limits ("(" ++ t ++ ") " ++ c.keyword ++ " (" ++ u ++ ")") = .ok r ↔
      r = .binary c f g
      ∧ limits.Admits (f.size + g.size + 1) (max (parenNesting t) (parenNesting u) + 1) := by
  obtain ⟨ts, hts, hf, -⟩ := exists_folds_of_parse ht
  obtain ⟨us, hus, hg, -⟩ := exists_folds_of_parse hu
  have hst := scanned_of_tokenize hts
  have hsu := scanned_of_tokenize hus
  rw [← nesting_lexemes hts, ← nesting_lexemes hus]
  exact ⟨parse_group hst hf, parse_negation hst hf, parse_binary hst hf hsu hg⟩

/-- A part whose operands and connective are out of order is one part all the same. -/
theorem parse_compose_at_limits :
    parse ⟨4, 1⟩ "(a) b AND" = .ok (.binary .and (.setting "a") (.setting "b"))
    ∧ parse ⟨4, 2⟩ "((a) b AND)" = .ok (.binary .and (.setting "a") (.setting "b"))
    ∧ parse ⟨5, 2⟩ "NOT((a) b AND)" = .ok (.not (.binary .and (.setting "a") (.setting "b")))
    ∧ parse ⟨6, 2⟩ "((a) b AND) OR (c)"
      = .ok (.binary .or (.binary .and (.setting "a") (.setting "b")) (.setting "c")) := by
  have hts : tokenize "(a) b AND" = .ok [⟨.opening, 0⟩, ⟨.name "a", 1⟩, ⟨.closing, 2⟩,
      ⟨.name "b", 4⟩, ⟨.connective .and, 6⟩] := rfl
  have harr : Arranged none [.opening, .name "a", .closing, .name "b", .connective .and]
      [.setting "a", .setting "b", .binary .and .hole .hole] :=
    .group (.leaf rfl (.nil none)) (.leaf rfl (.connective (.nil (some .and))))
  have ht : parse ⟨4, 1⟩ "(a) b AND" = .ok (.binary .and (.setting "a") (.setting "b")) :=
    (parse_eq_ok_iff_of_tokenize hts).mpr ⟨_, harr, rfl, by decide⟩
  have hus : tokenize "c" = .ok [⟨.name "c", 0⟩] := rfl
  have hu : parse ⟨2, 0⟩ "c" = .ok (.setting "c") :=
    parse_of_derives hus (.term (.name "c")) (by decide)
  refine ⟨ht, ?_, ?_, ?_⟩
  · exact (parse_compose ht hu ⟨4, 2⟩ _).1.mpr ⟨rfl, by decide⟩
  · exact (parse_compose ht hu ⟨5, 2⟩ _).2.1.mpr ⟨rfl, by decide⟩
  · exact ((parse_compose ht hu ⟨6, 2⟩ _).2.2 .or).mpr ⟨rfl, by decide⟩

end FlagLogic
