import FlagLogic.Proofs.Parse.Grammar
import FlagLogic.Proofs.Token.Parentheses

/-!
Exact limits. What limits a parsed text is accepted under is known from its parentheses and from the
formula. Main statement: the answer for it under all limits (`parse_thresholds`).
-/

namespace FlagLogic

/-- Limits that are at least as large admit at least as much. -/
theorem Limits.Admits.mono {limits larger : Limits} {nodes depth : Nat}
    (h : limits.Admits nodes depth) (hops : limits.operations ≤ larger.operations)
    (hdepth : limits.depth ≤ larger.depth) : larger.Admits nodes depth := by
  obtain ⟨hnodes, hdeep⟩ := h
  exact ⟨by omega, by omega⟩

/-- **Exact limits.** A text that is parsed under some limits is refused for its depth if it has
groups and they are nested deeper than the limit, else for its length if the formula has as many
nodes as the limit or more, and is parsed to the same formula under all other limits. -/
theorem parse_thresholds {limits₀ : Limits} {text : String} {f : Formula}
    (h : parse limits₀ text = .ok f) :
    (∀ limits, parse limits text =
      if 1 ≤ parenNesting text ∧ limits.depth < parenNesting text then
        .error (.tooDeep limits.depth text)
      else if limits.operations ≤ f.size then .error (.tooMany limits.operations (some text))
      else .ok f)
    ∧ (∀ limits, limits₀.operations ≤ limits.operations → limits₀.depth ≤ limits.depth →
      parse limits text = .ok f)
    ∧ ∃ ts, tokenize text = .ok ts ∧ nodeCount (lexemes ts) = f.size := by
  obtain ⟨ts, hts, hfolds, hlim⟩ := exists_folds_of_parse h
  refine ⟨fun limits => ?_, fun limits hops hdepth => ?_, ts, hts, hfolds.nodeCount_eq⟩
  · have hdeep : (1 ≤ parenNesting text ∧ limits.depth < parenNesting text) ↔
        ¬Within limits.depth 0 (nesting (lexemes ts)) := by
      rw [nesting_lexemes hts, Within]
      omega
    rw [parse_eq_of_folds hts hfolds]
    by_cases hwithin : Within limits.depth 0 (nesting (lexemes ts))
    · rw [if_pos hwithin, if_neg (fun hd => hdeep.mp hd hwithin)]
    · rw [if_neg hwithin, if_pos (hdeep.mpr hwithin)]
  · exact (parse_eq_ok_iff_of_folds hts hfolds).mpr ⟨rfl, hlim.mono hops hdepth⟩

/-- A text with two groups around one name, at and next to its limits. -/
theorem parse_thresholds_at_groups :
    parse ⟨5, 2⟩ "a AND NOT((b))" = .ok (.binary .and (.setting "a") (.not (.setting "b")))
    ∧ parse ⟨4, 1⟩ "a AND NOT((b))" = .error (.tooDeep 1 "a AND NOT((b))")
    ∧ parse ⟨4, 2⟩ "a AND NOT((b))" = .error (.tooMany 4 (some "a AND NOT((b))"))
    ∧ parse ⟨6, 2⟩ "a AND NOT((b))" = .ok (.binary .and (.setting "a") (.not (.setting "b"))) := by
  have hts : tokenize "a AND NOT((b))" = .ok [⟨.name "a", 0⟩, ⟨.connective .and, 2⟩,
      ⟨.negation, 6⟩, ⟨.opening, 9⟩, ⟨.opening, 10⟩, ⟨.name "b", 11⟩, ⟨.closing, 12⟩,
      ⟨.closing, 13⟩] := rfl
  have hnot : Derives .term [.negation, .opening, .opening, .name "b", .closing, .closing]
      (.not (.setting "b")) :=
    .negation (.term (.group (.term (.name "b"))))
  have hparse : parse ⟨5, 2⟩ "a AND NOT((b))"
      = .ok (.binary .and (.setting "a") (.not (.setting "b"))) :=
    parse_of_derives hts (.binary (c := .and) (.term (.name "a")) hnot) (by decide)
  obtain ⟨hall, hlarger, -⟩ := parse_thresholds hparse
  refine ⟨hparse, ?_, ?_, hlarger ⟨6, 2⟩ (by decide) (by decide)⟩
  · exact (hall ⟨4, 1⟩).trans (if_pos (by decide))
  · exact (hall ⟨4, 2⟩).trans ((if_neg (by decide)).trans (if_pos (by decide)))

end FlagLogic
