import FlagLogic.Proofs.Eval.Agreement
import FlagLogic.Proofs.Parse.RoundTrip

/-!
What can go wrong when a parsed formula is evaluated. Parsed formulas are whole (`whole_of_parse`),
and the evaluation of a whole formula fails only where an environment fails for one of its settings
(`exists_leaf_of_outcome_error`). Main statement: with a lenient mapping a parsed formula comes to its
value, and with a strict one the only error is a setting that the mapping does not hold
(`evaluate_of_parse`).
-/

namespace FlagLogic

open Environment

/-! ## Parsed formulas are whole -/

theorem Formula.Producible.whole {f : Formula} (h : f.Producible) : f.Whole := by
  induction f with
  | literal b => trivial
  | setting name => trivial
  | not x ih => exact ih h
  | binary c l r ihl ihr => exact ⟨ihl h.1, ihr h.2⟩
  | hole => exact h
  | foreign kind shown => exact h

theorem whole_of_parse {limits : Limits} {text : String} {f : Formula}
    (h : parse limits text = .ok f) : f.Whole :=
  (producible_of_parse h).1.whole

/-! ## Where errors come from -/

theorem Course.outcome_andThen_eq_error {course : Course} {next : Bool → Course} {e : Error}
    (h : (course.andThen next).outcome = .error e) :
    course.outcome = .error e ∨ ∃ b, course.outcome = .ok b ∧ (next b).outcome = .error e := by
  rcases course with ⟨names, e' | b⟩
  · exact .inl h
  · exact .inr ⟨b, rfl, h⟩

/-- The evaluation of a whole formula fails only where the environment fails for one of its
leaves. -/
theorem exists_leaf_of_outcome_error {env : Environment} {missing : Missing} {root f : Formula}
    {e : Error} (hf : f.Whole) (h : (Formula.course env missing root f).outcome = .error e) :
    ∃ name ∈ f.leaves, env.worth missing root name = .error e := by
  induction f with
  | literal b => cases h
  | setting name => exact ⟨name, List.mem_singleton.mpr rfl, h⟩
  | not x ih =>
    have hx : x.Whole := hf
    rw [Formula.course, if_neg hx.ne_hole] at h
    rcases Course.outcome_andThen_eq_error h with h | ⟨b, -, h⟩
    · exact ih hx h
    · cases h
  | binary c l r ihl ihr =>
    obtain ⟨hl, hr⟩ := hf
    rw [Formula.course, if_neg (not_or.mpr ⟨hl.ne_hole, hr.ne_hole⟩)] at h
    rcases Course.outcome_andThen_eq_error h with h | ⟨b, -, h⟩
    · obtain ⟨name, hname, hworth⟩ := ihl hl h
      exact ⟨name, List.mem_append_left _ hname, hworth⟩
    · have hright : (Formula.course env missing root r).outcome = .error e := by
        cases c <;> cases b
        · cases h
        · exact h
        · exact h
        · cases h
      obtain ⟨name, hname, hworth⟩ := ihr hr hright
      exact ⟨name, List.mem_append_right _ hname, hworth⟩
  | hole => exact hf.elim
  | foreign kind shown => exact hf.elim

/-- A lookup fails because a strict mapping does not hold the setting, or because a host declines to
answer. -/
theorem Environment.worth_eq_error {env : Environment} {missing : Missing} {root : Formula}
    {name : String} {e : Error} (h : env.worth missing root name = .error e) :
    e = .undefined name root.text env.known ∨ e = .refused name := by
  cases env with
  | mapping entries =>
    simp only [worth] at h
    cases hlookup : entries.lookup (.name name) with
    | some b => simp [hlookup] at h
    | none =>
      cases missing with
      | lenient => simp [hlookup] at h
      | strict =>
        simp only [hlookup, Except.error.injEq] at h
        exact .inl h.symm
  | host answer =>
    simp only [worth] at h
    cases hanswer : answer name with
    | some b => simp [hanswer] at h
    | none =>
      simp only [hanswer, Except.error.injEq] at h
      exact .inr h.symm

/-- The evaluation of a whole formula fails for want of a setting, and for nothing else. -/
theorem outcome_error_of_whole {env : Environment} {missing : Missing} {f : Formula} {e : Error}
    (hf : f.Whole) (h : (Formula.course env missing f f).outcome = .error e) :
    ∃ name ∈ f.leaves, e = .undefined name f.text env.known ∨ e = .refused name := by
  obtain ⟨name, hname, hworth⟩ := exists_leaf_of_outcome_error hf h
  exact ⟨name, hname, worth_eq_error hworth⟩

/-- What a strict mapping fails for is not in it. -/
theorem Environment.of_worth_strict_error {entries : List (Key × Bool)} {root : Formula}
    {name : String} {e : Error} (h : (mapping entries).worth .strict root name = .error e) :
    ¬(mapping entries).Holds name
      ∧ e = .undefined name root.text (entries.map (·.1.listed)) := by
  by_cases hname : (mapping entries).Holds name
  · rw [worth_of_holds hname] at h
    cases h
  · rw [worth_strict_of_not_holds hname] at h
    cases h
    exact ⟨hname, rfl⟩

/-! ## Evaluating what is parsed -/

/-- **Parsed formulas do not go wrong.** A formula that a text is parsed to comes to its value with
every lenient mapping. With a strict one the only error is that one of its settings is not in the
mapping; if all of them are, it comes to its value. In no environment does it turn out that an
operand is missing, or that something is no formula. -/
theorem evaluate_of_parse {limits : Limits} {text : String} {f : Formula}
    (h : parse limits text = .ok f) :
    (∀ entries, (evaluate (.mapping entries) .lenient f).outcome
      = .ok (f.value (mapping entries).truth))
    ∧ (∀ entries e, (evaluate (.mapping entries) .strict f).outcome = .error e →
      ∃ name ∈ f.settings, ¬(mapping entries).Holds name
        ∧ e = .undefined name f.text (entries.map (·.1.listed)))
    ∧ (∀ entries, (∀ name ∈ f.settings, (mapping entries).Holds name) →
      (evaluate (.mapping entries) .strict f).outcome = .ok (f.value (mapping entries).truth))
    ∧ ∀ env missing,
      (∀ keyword expression, (evaluate env missing f).outcome
        ≠ .error (.incomplete keyword expression))
      ∧ ∀ kind shown, (evaluate env missing f).outcome ≠ .error (.foreign kind shown) := by
  have hf := whole_of_parse h
  simp only [outcome_evaluate, Formula.mem_settings]
  refine ⟨?_, ?_, ?_, ?_⟩
  · intro entries
    exact outcome_course_of_whole hf fun name _ => worth_lenient entries f name
  · intro entries e he
    obtain ⟨name, hname, hworth⟩ := exists_leaf_of_outcome_error hf he
    exact ⟨name, hname, of_worth_strict_error hworth⟩
  · intro entries hall
    exact outcome_course_of_whole hf fun name hname => worth_of_holds (hall name hname) .strict f
  · intro env missing
    constructor
    · intro keyword expression he
      obtain ⟨name, -, heq | heq⟩ := outcome_error_of_whole hf he <;> cases heq
    · intro kind shown he
      obtain ⟨name, -, heq | heq⟩ := outcome_error_of_whole hf he <;> cases heq

/-- A text with two settings, and a mapping that holds one of them or both. -/
theorem evaluate_of_parse_at_absent :
    let f : Formula := .binary .or (.setting "a") (.not (.setting "b"))
    let one : List (Key × Bool) := [(.name "a", false)]
    let both : List (Key × Bool) := [(.name "b", true), (.name "a", false)]
    parse ⟨5, 1⟩ "a OR NOT(b)" = .ok f
    ∧ (evaluate (.mapping one) .lenient f).outcome = .ok true
    ∧ (evaluate (.mapping one) .strict f).outcome = .error (.undefined "b" f.text ["a"])
    ∧ (∃ name ∈ f.settings, ¬(mapping one).Holds name
      ∧ Error.undefined "b" f.text ["a"] = .undefined name f.text ["a"])
    ∧ (∀ name ∈ f.settings, (mapping both).Holds name)
    ∧ (evaluate (.mapping both) .strict f).outcome = .ok false := by
  intro f one both
  have hts : tokenize "a OR NOT(b)" = .ok [⟨.name "a", 0⟩, ⟨.connective .or, 2⟩, ⟨.negation, 5⟩,
      ⟨.opening, 8⟩, ⟨.name "b", 9⟩, ⟨.closing, 10⟩] := rfl
  have hparse : parse ⟨5, 1⟩ "a OR NOT(b)" = .ok f :=
    parse_of_derives hts
      (.binary (c := .or) (.term (.name "a")) (.negation (.term (.name "b")))) (by decide)
  have hboth : ∀ name ∈ f.settings, (mapping both).Holds name := by
    simp only [Formula.mem_settings]
    decide
  have herror : (evaluate (.mapping one) .strict f).outcome = .error (.undefined "b" f.text ["a"]) :=
    outcome_evaluate (.mapping one) .strict f
  obtain ⟨hlenient, hstrict, hvalue, -⟩ := evaluate_of_parse hparse
  exact ⟨hparse, hlenient one, herror, hstrict one _ herror, hboth, hvalue both hboth⟩

end FlagLogic
