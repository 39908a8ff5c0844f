import FlagLogic.Proofs.Formula.Heights
import FlagLogic.Proofs.Parse.Faults
import FlagLogic.Proofs.Parse.Grammar
import FlagLogic.Proofs.Token.Parentheses
import FlagLogic.Proofs.Token.Spans

/-!
What a sequence that does not fold says about its text. The fault is chosen from what folding ended in
and from the last token, and not from the place of the mistake; it is nevertheless true of the text.
Main statement: a report of a missing connective, of a missing operand behind a connective, or of an
empty expression is right about the tokens and the text (`parse_diagnoses`).
-/

namespace FlagLogic

open Fold Text

/-! ## Faults by their summaries -/

namespace Fault

/-- The words that the summary of a fault starts with, whatever the fault is about. -/
def lead : Fault → String
  | textBeforeNot _ => "Unexpected '"
  | operandBetween .. => "Missing operand between "
  | openingAfterNot => "Expected ( after NOT"
  | unclosed => "Expected closing parenthesis"
  | unexpectedClosing => "Unexpected token )"
  | unknownToken _ => "Unknown token "
  | empty => "Empty expression"
  | operandAfter _ => "Missing operand after "
  | operandFor _ => "Missing operand for "
  | adjacent => "Missing AND/OR between expressions"

theorem exists_summary_eq (fault : Fault) : ∃ rest, fault.summary = fault.lead ++ rest := by
  cases fault with
  | textBeforeNot text => exact ⟨text ++ "' before NOT(", String.append_assoc ..⟩
  | operandBetween a b =>
    refine ⟨a.keyword ++ " and " ++ b.keyword, ?_⟩
    show "Missing operand between " ++ a.keyword ++ " and " ++ b.keyword = _
    simp only [lead, String.append_assoc]
  | unknownToken kind => exact ⟨Text.quoted kind, rfl⟩
  | operandAfter c => exact ⟨c.keyword, rfl⟩
  | operandFor keyword => exact ⟨keyword, rfl⟩
  | _ => exact ⟨"", String.append_empty.symm⟩

/-- Of two beginnings of a summary, one is a beginning of the other. -/
theorem lead_prefix_or {fault : Fault} {words more : String} (h : fault.summary = words ++ more) :
    fault.lead.toList <+: words.toList ∨ words.toList <+: fault.lead.toList := by
  obtain ⟨rest, hrest⟩ := fault.exists_summary_eq
  have heq := congrArg String.toList (hrest.symm.trans h)
  rw [String.toList_append, String.toList_append] at heq
  exact List.prefix_or_prefix_of_prefix ⟨_, heq⟩ ⟨_, rfl⟩

theorem eq_empty_of_summary {fault : Fault} (h : fault.summary = "Empty expression") :
    fault = .empty := by
  have hlead := lead_prefix_or (h.trans String.append_empty.symm)
  cases fault with
  | empty => rfl
  | _ =>
    simp only [lead] at hlead
    exact absurd hlead (by decide)

theorem eq_adjacent_of_summary {fault : Fault}
    (h : fault.summary = "Missing AND/OR between expressions") : fault = .adjacent := by
  have hlead := lead_prefix_or (h.trans String.append_empty.symm)
  cases fault with
  | adjacent => rfl
  | _ =>
    simp only [lead] at hlead
    exact absurd hlead (by decide)

theorem eq_operandAfter_of_summary {fault : Fault} {keyword : String}
    (h : fault.summary = "Missing operand after " ++ keyword) :
    ∃ c, fault = .operandAfter c ∧ c.keyword = keyword := by
  have hlead := lead_prefix_or h
  cases fault with
  | operandAfter c => exact ⟨c, rfl, (String.append_right_inj _).mp h⟩
  | _ =>
    simp only [lead] at hlead
    exact absurd hlead (by decide)

end Fault

/-! ## Sequences that do not fold -/

/-- What a flaw says about the nodes. -/
inductive Flawed (nodes : List Formula) : Flaw → Prop
  | empty (none : nodes = []) : Flawed nodes .empty
  | missingOperand {node : Formula} (mem : node ∈ nodes) :
      Flawed nodes (.missingOperand node.keyword)
  | manyRoots {stack : List Formula} (steps : steps? [] nodes = some stack)
      (many : 1 < stack.length) : Flawed nodes (.manyRoots (stack.reverse.map Formula.text))

/-- Folding something leaves something on the stack. -/
theorem steps?_ne_nil {nodes stack : List Formula} (hne : nodes ≠ [])
    (h : steps? [] nodes = some stack) : stack ≠ [] := by
  rintro rfl
  have hsizes := sizes_steps? nodes h
  rw [sizes, Nat.zero_add] at hsizes
  exact hne (List.eq_nil_of_length_eq_zero hsizes.symm)

/-- What folding reports about the nodes is true of them. -/
theorem flawed_of_fold {nodes : List Formula} {limit : Int} {expression : Option String}
    {flaw : Flaw} (h : fold nodes limit expression = .error (.malformed flaw expression)) :
    Flawed nodes flaw := by
  by_cases hne : nodes = []
  · rw [fold, if_pos hne] at h
    cases h
    exact .empty hne
  rcases steps?_cases [] nodes with ⟨stack, hs⟩ | ⟨before, node, after, mid, rfl, hs, hnone⟩
  · by_cases hlim : (nodes.length : Int) < limit
    · have hrun : run limit expression 0 [] nodes = .ok stack :=
        (run_eq_ok_iff nodes).mpr ⟨hs, .inr (by omega)⟩
      have hpos := List.length_pos_iff.mpr (steps?_ne_nil hne hs)
      by_cases hone : stack.length = 1
      · obtain ⟨f, rfl⟩ := List.length_eq_one_iff.mp hone
        rw [fold_eq_ok_iff.mpr ⟨hs, hlim⟩] at h
        cases h
      · rw [fold_of_run_ok hne hrun hone] at h
        cases h
        exact .manyRoots hs (by omega)
    · rw [fold, if_neg hne, run_tooMany hne hs (by omega)] at h
      cases h
  · rw [fold, if_neg hne] at h
    by_cases hlim : (before.length + 1 : Int) < limit
    · rw [run_of_firstLacking (firstLacking_iff.mpr ⟨before, after, mid, rfl, rfl, hs, hnone⟩)
        (by omega)] at h
      cases h
      exact .missingOperand (by simp)
    · rw [run_append_tooMany node after before hs (by omega)] at h
      cases h

/-- If more than one formula remains, two operands stand side by side: without any, the lexemes leave
one formula at most, wherever others are lacking. -/
theorem Arranged.adjacentOperands {ls : List Lexeme} {nodes stack : List Formula}
    (h : Arranged none ls nodes) (hs : steps? [] nodes = some stack) (hmany : 1 < stack.length) :
    AdjacentOperands ls := by
  by_contra hadj
  have hle := (h.surplus_le hadj).1
  have hlength := length_steps? nodes hs
  rw [List.length_nil] at hlength
  omega

/-! ## Texts without operands -/

/-- A text whose tokens are all parentheses has nothing else but blanks. -/
theorem Laid.isBlank_or_isParen {start : Nat} {cs : List Char} {ts : List Token}
    (h : Laid start cs ts) (hts : ∀ x ∈ lexemes ts, x.isParen) :
    ∀ c ∈ cs, isBlank c ∨ isParen c := by
  induction h with
  | last hgap => exact fun c hc => .inl (hgap c hc)
  | @token start gap span rest x ts hgap hspells _ _ ih =>
    rw [lexemes_cons, List.forall_mem_cons] at hts
    obtain ⟨hx, hts⟩ := hts
    have hspan : ∀ c ∈ span, isParen c := by
      cases hspells with
      | opening | closing => simp [isParen]
      | _ => simp [Lexeme.isParen] at hx
    intro c hc
    rw [List.mem_append, List.mem_append] at hc
    rcases hc with (hc | hc) | hc
    · exact .inl (hgap c hc)
    · exact .inr (hspan c hc)
    · exact ih hts c hc

theorem isParen_of_nodeCount {ls : List Lexeme} (h : nodeCount ls = 0) : ∀ x ∈ ls, x.isParen := by
  intro x hx
  have := List.countP_eq_zero.mp h x hx
  simpa [Lexeme.isParen, or_iff_not_imp_left] using this

/-- A text without nodes consists of blanks and balanced parentheses. -/
theorem balanced_of_arranged_nil {text : String} {ts : List Token} (hts : tokenize text = .ok ts)
    (harr : Arranged none (lexemes ts) []) :
    (∀ c ∈ text.toList, isBlank c ∨ isParen c) ∧ Balanced (parens text.toList) := by
  have hparens : ∀ x ∈ lexemes ts, x.isParen := isParen_of_nodeCount harr.length.symm
  refine ⟨(laid_of_tokenize hts).isBlank_or_isParen hparens, ?_⟩
  rw [← filter_isParen_lexemes hts, List.filter_eq_self.mpr hparens]
  exact harr.balanced

/-! ## From the fault to the text -/

/-- The fault is one of a sequence that does not fold. -/
def Fault.OfFolding : Fault → Prop
  | empty | adjacent | operandAfter _ | operandFor _ => True
  | _ => False

theorem Blamed.not_ofFolding {x : Lexeme} {fault : Fault} (h : Blamed x fault) :
    ¬fault.OfFolding := by
  cases h <;> exact id

/-- A fault of folding comes from nodes that are flawed as it says. -/
theorem Origin.exists_flawed {limits : Limits} {text : String} {fault : Fault} {position : Nat}
    (h : Origin limits text fault position) (hfault : fault.OfFolding) :
    ∃ ts nodes flaw, tokenize text = .ok ts ∧ Arranged none (lexemes ts) nodes
      ∧ Flawed nodes flaw ∧ flaw.fault ts = (fault, position) := by
  cases h with
  | stray => exact hfault.elim
  | blamed _ _ hblamed => exact absurd hfault hblamed.not_ofFolding
  | flawed hts harr hfold => exact ⟨_, _, _, hts, harr, flawed_of_fold hfold, rfl⟩

namespace Flaw

variable {flaw : Flaw} {ts : List Token} {position : Nat}

theorem eq_empty_of_fault (h : flaw.fault ts = (.empty, position)) : flaw = .empty := by
  cases flaw with
  | empty => rfl
  | manyRoots => cases h
  | missingOperand =>
    simp only [fault] at h
    split at h <;> cases h

theorem eq_manyRoots_of_fault (h : flaw.fault ts = (.adjacent, position)) :
    ∃ roots, flaw = .manyRoots roots := by
  cases flaw with
  | empty => cases h
  | manyRoots roots => exact ⟨roots, rfl⟩
  | missingOperand =>
    simp only [fault] at h
    split at h <;> cases h

theorem getLast?_of_fault {c : Connective} (h : flaw.fault ts = (.operandAfter c, position)) :
    ts.getLast? = some ⟨.connective c, position⟩ := by
  cases flaw with
  | empty | manyRoots => cases h
  | missingOperand =>
    simp only [fault] at h
    split at h
    · next hlast =>
      cases h
      exact hlast
    · cases h

end Flaw

/-- The report of a fault, if parsing ends in a report about the grammar. -/
theorem exists_origin_of_report {limits : Limits} {text summary source : String} {position : Int}
    (h : (parse limits text).mapError Error.diagnostic = .error (.grammar summary source position)) :
    ∃ fault p, Origin limits text fault p ∧ fault.summary = summary ∧ (p : Int) = position := by
  cases hp : parse limits text with
  | ok f =>
    rw [hp] at h
    cases h
  | error e =>
    rw [hp] at h
    rcases parse_error hp with ⟨fault, p, rfl⟩ | rfl | rfl
    · cases h
      exact ⟨fault, p, (parse_fault hp).2, rfl, rfl⟩
    · cases h
    · cases h

/-- **True diagnoses.** Whatever the limits are: if a missing connective is reported, the tokens have two
operands side by side; if a missing operand behind a connective is, then this connective is the last
token, at the place that is reported; and if an empty expression is, then the text consists of blanks and
of parentheses that are balanced. -/
theorem parse_diagnoses {limits : Limits} {text summary source : String} {position : Int}
    (h : (parse limits text).mapError Error.diagnostic = .error (.grammar summary source position)) :
    (summary = "Missing AND/OR between expressions" →
      ∃ ts, tokenize text = .ok ts ∧ AdjacentOperands (lexemes ts))
    ∧ (∀ keyword, summary = "Missing operand after " ++ keyword →
      ∃ ts c p, tokenize text = .ok ts ∧ ts.getLast? = some ⟨.connective c, p⟩
        ∧ c.keyword = keyword ∧ position = (p : Int))
    ∧ (summary = "Empty expression" →
      (∀ c ∈ text.toList, isBlank c ∨ isParen c) ∧ Balanced (parens text.toList)) := by
  obtain ⟨fault, p, horigin, rfl, rfl⟩ := exists_origin_of_report h
  refine ⟨?_, ?_, ?_⟩
  · intro hsummary
    obtain rfl := Fault.eq_adjacent_of_summary hsummary
    obtain ⟨ts, nodes, flaw, hts, harr, hflawed, hflaw⟩ := horigin.exists_flawed trivial
    obtain ⟨roots, rfl⟩ := Flaw.eq_manyRoots_of_fault hflaw
    cases hflawed with
    | manyRoots hs hmany => exact ⟨ts, hts, harr.adjacentOperands hs hmany⟩
  · intro keyword hsummary
    obtain ⟨c, rfl, hkeyword⟩ := Fault.eq_operandAfter_of_summary hsummary
    obtain ⟨ts, nodes, flaw, hts, -, -, hflaw⟩ := horigin.exists_flawed trivial
    exact ⟨ts, c, p, hts, Flaw.getLast?_of_fault hflaw, hkeyword, rfl⟩
  · intro hsummary
    obtain rfl := Fault.eq_empty_of_summary hsummary
    obtain ⟨ts, nodes, flaw, hts, harr, hflawed, hflaw⟩ := horigin.exists_flawed trivial
    obtain rfl := Flaw.eq_empty_of_fault hflaw
    cases hflawed with
    | empty hnil =>
      subst hnil
      exact balanced_of_arranged_nil hts harr

/-- Nodes of a text that do not fold are reported as a fault of the text. -/
theorem report_of_fold (limits : Limits) {text : String} {ts : List Token} {nodes : List Formula}
    {flaw : Flaw} (hts : tokenize text = .ok ts) (harr : Arranged none (lexemes ts) nodes)
    (hwithin : Within limits.depth 0 (nesting (lexemes ts)))
    (hfold : fold nodes limits.operations (some text) = .error (.malformed flaw (some text))) :
    (parse limits text).mapError Error.diagnostic
      = .error (.grammar (flaw.fault ts).1.summary text (flaw.fault ts).2) := by
  rw [parse_eq, hts]
  simp only [foldOrder_eq_ok_iff.mpr ⟨harr, hwithin⟩, hfold, bind, Except.bind]
  rfl

/-- Each of the three reports. In the first text the connective takes an operand from before its group,
so that what is reported is a missing connective and not a missing operand. -/
theorem parse_diagnoses_at_groups :
    ((parse {} "a (b AND) c").mapError Error.diagnostic
        = .error (.grammar "Missing AND/OR between expressions" "a (b AND) c" 0)
      ∧ ∃ ts, tokenize "a (b AND) c" = .ok ts ∧ AdjacentOperands (lexemes ts))
    ∧ ((parse {} "(a) or").mapError Error.diagnostic
        = .error (.grammar "Missing operand after OR" "(a) or" 4)
      ∧ ∃ ts c p, tokenize "(a) or" = .ok ts ∧ ts.getLast? = some ⟨.connective c, p⟩
        ∧ c.keyword = "OR" ∧ (4 : Int) = (p : Int))
    ∧ (parse {} "( () )").mapError Error.diagnostic
        = .error (.grammar "Empty expression" "( () )" 0)
      ∧ (∀ c ∈ "( () )".toList, isBlank c ∨ isParen c) ∧ Balanced (parens "( () )".toList) := by
  have hmany : (parse {} "a (b AND) c").mapError Error.diagnostic
      = .error (.grammar "Missing AND/OR between expressions" "a (b AND) c" 0) := by
    have hts : tokenize "a (b AND) c" = .ok [⟨.name "a", 0⟩, ⟨.opening, 2⟩, ⟨.name "b", 3⟩,
        ⟨.connective .and, 5⟩, ⟨.closing, 8⟩, ⟨.name "c", 10⟩] := rfl
    have hbody : Arranged none [.name "b", .connective .and]
        [.setting "b", .binary .and .hole .hole] :=
      .leaf rfl (.connective (.nil _))
    have harr : Arranged none [.name "a", .opening, .name "b", .connective .and, .closing, .name "c"]
        [.setting "a", .setting "b", .binary .and .hole .hole, .setting "c"] :=
      .leaf rfl (.group hbody (.leaf rfl (.nil none)))
    exact report_of_fold {} hts harr (by decide) rfl
  have hlast : (parse {} "(a) or").mapError Error.diagnostic
      = .error (.grammar "Missing operand after OR" "(a) or" 4) := by
    have hts : tokenize "(a) or" = .ok [⟨.opening, 0⟩, ⟨.name "a", 1⟩, ⟨.closing, 2⟩,
        ⟨.connective .or, 4⟩] := rfl
    have hbody : Arranged none [.name "a"] [.setting "a"] := .leaf rfl (.nil none)
    have harr : Arranged none [.opening, .name "a", .closing, .connective .or]
        [.setting "a", .binary .or .hole .hole] :=
      .group hbody (.connective (.nil _))
    exact report_of_fold {} hts harr (by decide) rfl
  have hempty : (parse {} "( () )").mapError Error.diagnostic
      = .error (.grammar "Empty expression" "( () )" 0) := by
    have hts : tokenize "( () )" = .ok [⟨.opening, 0⟩, ⟨.opening, 2⟩, ⟨.closing, 3⟩,
        ⟨.closing, 5⟩] := rfl
    have hbody : Arranged none [.opening, .closing] [] := .group (.nil none) (.nil none)
    have harr : Arranged none [.opening, .opening, .closing, .closing] [] :=
      .group hbody (.nil none)
    exact report_of_fold {} hts harr (by decide) rfl
  exact ⟨⟨hmany, (parse_diagnoses hmany).1 rfl⟩, ⟨hlast, (parse_diagnoses hlast).2.1 "OR" rfl⟩,
    hempty, (parse_diagnoses hempty).2.2 rfl⟩

end FlagLogic
