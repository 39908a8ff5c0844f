import FlagLogic.Proofs.Parse.Acceptance
import Mathlib.Data.List.Chain

/-!
The grammar of expressions. An expression is a term, or an expression, a connective and a term; a
term is a name, a literal, a group or a negated group. Main statement: where no two operands stand
side by side, the texts that are parsed are exactly those of the grammar, and the formula is that of
the derivation, in which the connectives have equal precedence and bind to the left.

The parser never looks at the grammar. What carries the proof is a count: without adjacent operands
a group adds at most one formula to the stack, and it adds one only if it is an expression.
-/

namespace FlagLogic

open FoldOrder Fold

/-! ## The grammar -/

/-- The categories of the grammar. -/
inductive Category where
  | expression
  | term
  deriving DecidableEq

/-- The category derives the lexemes, and the formula is that of the derivation. -/
inductive Derives : Category → List Lexeme → Formula → Prop
  | term {ls : List Lexeme} {f : Formula} (term : Derives .term ls f) : Derives .expression ls f
  | binary {c : Connective} {ls ms : List Lexeme} {f g : Formula}
      (left : Derives .expression ls f) (right : Derives .term ms g) :
      Derives .expression (ls ++ .connective c :: ms) (.binary c f g)
  | name (s : String) : Derives .term [.name s] (.setting s)
  | literal (b : Bool) (spelling : String) : Derives .term [.literal b spelling] (.literal b)
  | group {ls : List Lexeme} {f : Formula} (body : Derives .expression ls f) :
      Derives .term (.opening :: ls ++ [.closing]) f
  | negation {ls : List Lexeme} {f : Formula} (body : Derives .expression ls f) :
      Derives .term (.negation :: .opening :: ls ++ [.closing]) (.not f)

theorem derives_of_leaf? {x : Lexeme} {f : Formula} (h : x.leaf? = some f) :
    Derives .term [x] f := by
  cases x with
  | name s => cases h; exact .name s
  | literal b spelling => cases h; exact .literal b spelling
  | _ => cases h

theorem steps?_leaf {x : Lexeme} {f : Formula} (h : x.leaf? = some f) (stack : List Formula) :
    steps? stack [f] = some (f :: stack) := by
  cases x <;> cases h <;> rfl

/-! ## Derived lexemes are parsed -/

/-- The lexemes of a derivation have a fold order that puts the formula on the stack, whatever
follows them. Only a term may stand behind a waiting connective. -/
theorem Derives.arranged {k : Category} {ls : List Lexeme} {f : Formula} (h : Derives k ls f) :
    ∃ nodes, (∀ stack, steps? stack nodes = some (f :: stack))
      ∧ ∀ p, (k = .term ∨ p = none) → ∀ rest more, Arranged none rest more →
        Arranged p (ls ++ rest) (nodes ++ waiting p ++ more) := by
  induction h with
  | term _ ih =>
    obtain ⟨nodes, hsteps, harr⟩ := ih
    exact ⟨nodes, hsteps, fun p _ => harr p (.inl rfl)⟩
  | @binary c ls ms f g _ _ ihl ihr =>
    obtain ⟨ns, hns, harrl⟩ := ihl
    obtain ⟨os, hos, harrr⟩ := ihr
    refine ⟨ns ++ os ++ [.binary c .hole .hole], fun stack => ?_, fun p hp rest more hrest => ?_⟩
    · rw [steps?_append, steps?_append, hns]
      simp only [Option.bind_some, hos]
      rfl
    · obtain rfl : p = none := hp.resolve_left (by simp)
      have hright := harrr (some c) (.inl rfl) rest more hrest
      have := harrl none (.inr rfl) _ _ hright.connective
      simpa [waiting] using this
  | name s => exact ⟨[.setting s], fun _ => rfl, fun p _ _ _ hrest => .leaf rfl hrest⟩
  | literal b spelling => exact ⟨[.literal b], fun _ => rfl, fun p _ _ _ hrest => .leaf rfl hrest⟩
  | group _ ih =>
    obtain ⟨nodes, hsteps, harr⟩ := ih
    refine ⟨nodes, hsteps, fun p _ rest more hrest => ?_⟩
    have hbody := harr none (.inr rfl) [] [] (.nil none)
    have := Arranged.group (p := p) hbody hrest
    simpa [waiting] using this
  | negation _ ih =>
    obtain ⟨nodes, hsteps, harr⟩ := ih
    refine ⟨nodes ++ [.not .hole], fun stack => ?_, fun p _ rest more hrest => ?_⟩
    · rw [steps?_append, hsteps]
      rfl
    · have hbody := harr none (.inr rfl) [] [] (.nil none)
      have := Arranged.negation (p := p) hbody hrest
      simpa [waiting] using this

/-- The lexemes of an expression fold to its formula. -/
theorem Derives.folds {ls : List Lexeme} {f : Formula} (h : Derives .expression ls f) :
    Folds ls f := by
  obtain ⟨nodes, hsteps, harr⟩ := h.arranged
  have harr := harr none (.inr rfl) [] [] (.nil none)
  simp only [List.append_nil, waiting] at harr
  exact ⟨nodes, harr, hsteps⟩

/-- Every text of the grammar is parsed to the formula of its derivation. -/
theorem parse_of_derives {text : String} {ts : List Token} {limits : Limits} {f : Formula}
    (hts : tokenize text = .ok ts) (h : Derives .expression (lexemes ts) f)
    (hlim : limits.Admits (nodeCount (lexemes ts)) (nesting (lexemes ts))) :
    parse limits text = .ok f := by
  rw [h.folds.nodeCount_eq] at hlim
  exact (parse_eq_ok_iff_of_folds hts h.folds).mpr ⟨rfl, hlim⟩

/-! ## Adjacent operands -/

/-- The lexeme may be the last one of an operand. -/
def Lexeme.endsOperand : Lexeme → Bool
  | .name _ | .literal .. | .closing => true
  | _ => false

/-- The lexeme may be the first one of an operand. -/
def Lexeme.startsOperand : Lexeme → Bool
  | .name _ | .literal .. | .opening | .negation => true
  | _ => false

theorem Lexeme.operand_of_leaf? {x : Lexeme} {f : Formula} (h : x.leaf? = some f) :
    x.startsOperand ∧ x.endsOperand := by
  cases x <;> first | exact ⟨rfl, rfl⟩ | cases h

/-- Somewhere, at any depth, two operands stand side by side without a connective. -/
def AdjacentOperands (ls : List Lexeme) : Prop :=
  ∃ before a b after, ls = before ++ a :: b :: after ∧ a.endsOperand ∧ b.startsOperand

/-- The lexemes may follow an operand. -/
def Separated (ls : List Lexeme) : Prop :=
  (∀ x ∈ ls.head?, x.startsOperand = false) ∧ ¬AdjacentOperands ls

theorem not_adjacentOperands_iff {ls : List Lexeme} :
    ¬AdjacentOperands ls ↔ ls.IsChain fun a b => ¬(a.endsOperand ∧ b.startsOperand) := by
  rw [List.isChain_iff_forall_rel_of_append_cons_cons]
  constructor
  · intro h a b before after hls hab
    exact h ⟨before, a, b, after, hls, hab⟩
  · rintro h ⟨before, a, b, after, hls, hab⟩
    exact h hls hab

theorem not_adjacentOperands_cons {x : Lexeme} {ls : List Lexeme} :
    ¬AdjacentOperands (x :: ls) ↔
      (x.endsOperand → ∀ y ∈ ls.head?, y.startsOperand = false) ∧ ¬AdjacentOperands ls := by
  rw [not_adjacentOperands_iff, not_adjacentOperands_iff, List.isChain_cons]
  simp only [not_and, Bool.not_eq_true]
  exact and_congr_left fun _ => ⟨fun h hx y hy => h y hy hx, fun h y hy hx => h hx y hy⟩

theorem not_adjacentOperands_append {xs ys : List Lexeme} (h : ¬AdjacentOperands (xs ++ ys)) :
    ¬AdjacentOperands xs ∧ ¬AdjacentOperands ys := by
  rw [not_adjacentOperands_iff, List.isChain_append] at h
  exact ⟨not_adjacentOperands_iff.mpr h.1, not_adjacentOperands_iff.mpr h.2.1⟩

/-- What stands behind a leaf without adjacent operands. -/
theorem separated_of_leaf {x : Lexeme} {f : Formula} {ls : List Lexeme} (hx : x.leaf? = some f)
    (h : ¬AdjacentOperands (x :: ls)) : Separated ls := by
  rw [not_adjacentOperands_cons] at h
  exact ⟨h.1 (Lexeme.operand_of_leaf? hx).2, h.2⟩

/-- What stands in a group and behind it without adjacent operands. -/
theorem separated_of_group {body ls : List Lexeme}
    (h : ¬AdjacentOperands (.opening :: body ++ .closing :: ls)) :
    ¬AdjacentOperands body ∧ Separated ls := by
  obtain ⟨hbody, hrest⟩ := not_adjacentOperands_append h
  rw [not_adjacentOperands_cons] at hbody hrest
  exact ⟨hbody.2, hrest.1 rfl, hrest.2⟩

/-- A negation before a group stands beside its opening parenthesis, which it may. -/
theorem not_adjacentOperands_of_negation {ls : List Lexeme}
    (h : ¬AdjacentOperands (.negation :: ls)) : ¬AdjacentOperands ls :=
  (not_adjacentOperands_cons.mp h).2

/-! ## Parsed lexemes are derived -/

theorem not_separated_cons {x : Lexeme} (hx : x.startsOperand) (ls : List Lexeme) :
    ¬Separated (x :: ls) := fun h => by
  have := h.1 x rfl
  rw [hx] at this
  cases this

theorem surplus_waiting (p : Option Connective) :
    surplus (waiting p) = if p = none then 0 else -1 := by
  cases p <;> rfl

/-- The bound on the surplus, for an operand with what follows it. -/
theorem surplus_operand (p : Option Connective) {ls : List Lexeme} {inner outer : Int}
    (hstart : ¬Separated ls) (hinner : inner ≤ 1) (houter : outer ≤ 0) :
    inner + surplus (waiting p) + outer ≤ 1
      ∧ (p ≠ none ∨ Separated ls → inner + surplus (waiting p) + outer ≤ 0) := by
  rw [surplus_waiting]
  split
  · next hp =>
    refine ⟨by omega, fun h => ?_⟩
    rcases h with h | h
    · exact absurd hp h
    · exact absurd h hstart
  · exact ⟨by omega, fun _ => by omega⟩

/-- Without adjacent operands, lexemes leave at most one formula on the stack; behind an operand or
a connective they leave none of their own. -/
theorem Arranged.surplus_le {p : Option Connective} {ls : List Lexeme} {nodes : List Formula}
    (h : Arranged p ls nodes) (hadj : ¬AdjacentOperands ls) :
    surplus nodes ≤ 1 ∧ (p ≠ none ∨ Separated ls → surplus nodes ≤ 0) := by
  induction h with
  | nil p =>
    rw [surplus_waiting]
    split <;> exact ⟨by omega, fun _ => by omega⟩
  | connective _ ih =>
    have := (ih (not_adjacentOperands_cons.mp hadj).2).2 (.inl (by simp))
    exact ⟨by omega, fun _ => this⟩
  | @leaf p x f ls nodes hx _ ih =>
    -- only a connective may follow, so what follows adds nothing of its own
    have hsep := separated_of_leaf hx hadj
    have hrest := (ih hsep.2).2 (.inr hsep)
    have hstart := (Lexeme.operand_of_leaf? hx).1
    have := surplus_operand p (not_separated_cons hstart ls) (Int.le_refl 1) hrest
    simpa [Lexeme.arity_of_leaf? hx, Int.add_assoc] using this
  | @group p body ls inner outer _ _ ihb ihl =>
    obtain ⟨hbody, hsep⟩ := separated_of_group hadj
    have := surplus_operand p
      (not_separated_cons (x := .opening) rfl (body ++ .closing :: ls))
      (ihb hbody).1 ((ihl hsep.2).2 (.inr hsep))
    rw [surplus_append, surplus_append]
    exact this
  | @negation p body ls inner outer _ _ ihb ihl =>
    obtain ⟨hbody, hsep⟩ := separated_of_group (not_adjacentOperands_of_negation hadj)
    have := surplus_operand p
      (not_separated_cons (x := .negation) rfl (.opening :: body ++ .closing :: ls))
      (ihb hbody).1 ((ihl hsep.2).2 (.inr hsep))
    simpa [Formula.arity, Int.add_assoc] using this

/-- Behind an expression, and a connective if one waits, the lexemes make it a longer expression,
and their nodes do the same on the stack. -/
def Extends (p : Option Connective) (ls : List Lexeme) (nodes : List Formula) : Prop :=
  ∀ {ms : List Lexeme} {f : Formula}, Derives .expression ms f →
    ∃ g, Derives .expression (ms ++ (p.map Lexeme.connective).toList ++ ls) g
      ∧ ∀ stack, steps? (f :: stack) nodes = some (g :: stack)

/-- Lexemes of a group, or of what is left of it, that leave as many formulas as they can are an
expression, or extend the one before them. -/
def Saturated (p : Option Connective) (ls : List Lexeme) (nodes : List Formula) : Prop :=
  (p = none → surplus nodes = 1 →
    ∃ f, Derives .expression ls f ∧ ∀ stack, steps? stack nodes = some (f :: stack))
  ∧ (p ≠ none ∨ Separated ls → surplus nodes = 0 → Extends p ls nodes)

/-- A term starts an expression, or extends one behind a waiting connective. -/
theorem saturated_operand {p : Option Connective} (os ls : List Lexeme)
    (inner : List Formula) {outer : List Formula} (hstart : ¬Separated (os ++ ls))
    (hi : surplus inner ≤ 1) (ho : surplus outer ≤ 0)
    (hinner : surplus inner = 1 →
      ∃ f, Derives .term os f ∧ ∀ stack, steps? stack inner = some (f :: stack))
    (houter : surplus outer = 0 → Extends none ls outer) :
    Saturated p (os ++ ls) (inner ++ waiting p ++ outer) := by
  unfold Saturated
  rw [surplus_append, surplus_append, surplus_waiting]
  constructor
  · rintro rfl hsur
    rw [if_pos rfl] at hsur
    obtain ⟨f, hos, hsteps⟩ := hinner (by omega)
    obtain ⟨g, hg, hrest⟩ := houter (by omega) (.term hos)
    refine ⟨g, by simpa using hg, fun stack => ?_⟩
    rw [waiting, List.append_nil, steps?_append, hsteps]
    exact hrest stack
  · intro hp hsur ms e hms
    obtain ⟨c, rfl⟩ := Option.ne_none_iff_exists'.mp (hp.resolve_right hstart)
    rw [if_neg (by simp)] at hsur
    obtain ⟨f, hos, hsteps⟩ := hinner (by omega)
    obtain ⟨g, hg, hrest⟩ := houter (by omega) (.binary (c := c) hms hos)
    refine ⟨g, by simpa using hg, fun stack => ?_⟩
    rw [steps?_append, steps?_append, hsteps]
    exact hrest stack

theorem Arranged.saturated {p : Option Connective} {ls : List Lexeme} {nodes : List Formula}
    (h : Arranged p ls nodes) (hadj : ¬AdjacentOperands ls) : Saturated p ls nodes := by
  induction h with
  | nil p =>
    unfold Saturated
    rw [surplus_waiting]
    split
    · next hp =>
      subst hp
      refine ⟨fun _ h => absurd h (by omega), fun _ _ ms f hms => ?_⟩
      exact ⟨f, by simpa using hms, fun _ => rfl⟩
    · exact ⟨fun _ h => absurd h (by omega), fun _ h => absurd h (by omega)⟩
  | connective hrest ih =>
    have hadj' := (not_adjacentOperands_cons.mp hadj).2
    have hle := (hrest.surplus_le hadj').2 (.inl (by simp))
    refine ⟨fun _ h => by omega, fun _ h0 ms f hms => ?_⟩
    simpa using (ih hadj').2 (.inl (by simp)) h0 hms
  | @leaf p x f ls nodes hx hrest ih =>
    have hsep := separated_of_leaf hx hadj
    have hstart := (Lexeme.operand_of_leaf? hx).1
    have hone : surplus [f] = 1 := by simpa using (length_steps? [f] (steps?_leaf hx [])).symm
    exact saturated_operand [x] ls [f] (not_separated_cons hstart ls)
      (Int.le_of_eq hone) ((hrest.surplus_le hsep.2).2 (.inr hsep))
      (fun _ => ⟨f, derives_of_leaf? hx, steps?_leaf hx⟩) ((ih hsep.2).2 (.inr hsep))
  | @group p body ls inner outer hgroup hrest ihb ihl =>
    obtain ⟨hbody, hsep⟩ := separated_of_group hadj
    have := saturated_operand (p := p) (.opening :: body ++ [.closing]) ls inner
      (not_separated_cons (x := .opening) rfl _) (hgroup.surplus_le hbody).1
      ((hrest.surplus_le hsep.2).2 (.inr hsep))
      (fun h => by
        obtain ⟨f, hf, hsteps⟩ := (ihb hbody).1 rfl h
        exact ⟨f, .group hf, hsteps⟩)
      ((ihl hsep.2).2 (.inr hsep))
    simpa using this
  | @negation p body ls inner outer hgroup hrest ihb ihl =>
    obtain ⟨hbody, hsep⟩ := separated_of_group (not_adjacentOperands_of_negation hadj)
    have hsur : surplus (inner ++ [.not .hole]) = surplus inner := by simp [Formula.arity]
    have := saturated_operand (p := p) (.negation :: .opening :: body ++ [.closing])
      ls (inner ++ [.not .hole]) (not_separated_cons (x := .negation) rfl _)
      (by rw [hsur]; exact (hgroup.surplus_le hbody).1)
      ((hrest.surplus_le hsep.2).2 (.inr hsep))
      (fun h => by
        obtain ⟨f, hf, hsteps⟩ := (ihb hbody).1 rfl (hsur ▸ h)
        refine ⟨.not f, .negation hf, fun stack => ?_⟩
        rw [steps?_append, hsteps]
        rfl)
      ((ihl hsep.2).2 (.inr hsep))
    simpa using this

/-! ## The grammar and the parser -/

/-- **Acceptance of the grammar.** Within both limits, a text of the grammar is parsed to the
formula of its derivation; and where no two operands stand side by side, nothing else is parsed. -/
theorem parse_eq_ok_iff_derives {text : String} {ts : List Token} {limits : Limits}
    (hts : tokenize text = .ok ts) (hnodes : (nodeCount (lexemes ts) : Int) < limits.operations)
    (hdepth : (nesting (lexemes ts) : Int) ≤ limits.depth) :
    (¬AdjacentOperands (lexemes ts) →
      ∀ f, parse limits text = .ok f ↔ Derives .expression (lexemes ts) f)
    ∧ ∀ f, Derives .expression (lexemes ts) f → parse limits text = .ok f := by
  have haccept : ∀ f, Derives .expression (lexemes ts) f → parse limits text = .ok f :=
    fun f hf => parse_of_derives hts hf ⟨hnodes, .inr hdepth⟩
  refine ⟨fun hadj f => ⟨fun h => ?_, haccept f⟩, haccept⟩
  obtain ⟨nodes, harr, hsteps, -⟩ := (parse_eq_ok_iff_of_tokenize hts).mp h
  have hone : surplus nodes = 1 := by
    have := length_steps? nodes hsteps
    simpa using this.symm
  -- one formula is as many as a group can leave without adjacent operands
  obtain ⟨g, hg, hgsteps⟩ := (harr.saturated hadj).1 rfl hone
  rw [hgsteps []] at hsteps
  cases hsteps
  exact hg

/-- A text with both kinds of groups, under the tightest limits. -/
theorem parse_groups_at_limits :
    ∃ ts, tokenize "a AND (b OR NOT(c))" = .ok ts ∧ ¬AdjacentOperands (lexemes ts)
      ∧ nodeCount (lexemes ts) = 6 ∧ nesting (lexemes ts) = 2
      ∧ parse ⟨7, 2⟩ "a AND (b OR NOT(c))"
        = .ok (.binary .and (.setting "a") (.binary .or (.setting "b") (.not (.setting "c")))) := by
  have hts : tokenize "a AND (b OR NOT(c))" = .ok [⟨.name "a", 0⟩, ⟨.connective .and, 2⟩,
      ⟨.opening, 6⟩, ⟨.name "b", 7⟩, ⟨.connective .or, 9⟩, ⟨.negation, 12⟩, ⟨.opening, 15⟩,
      ⟨.name "c", 16⟩, ⟨.closing, 17⟩, ⟨.closing, 18⟩] := rfl
  have hadj : ¬AdjacentOperands [.name "a", .connective .and, .opening, .name "b",
      .connective .or, .negation, .opening, .name "c", .closing, .closing] := by
    simp [not_adjacentOperands_iff, Lexeme.endsOperand, Lexeme.startsOperand]
  have hor : Derives .expression
      [.name "b", .connective .or, .negation, .opening, .name "c", .closing]
      (.binary .or (.setting "b") (.not (.setting "c"))) :=
    .binary (.term (.name "b")) (.negation (.term (.name "c")))
  have hand := Derives.binary (c := .and) (.term (.name "a")) (.group hor)
  obtain ⟨hiff, -⟩ := @parse_eq_ok_iff_derives _ _ ⟨7, 2⟩ hts (by decide) (by decide)
  exact ⟨_, hts, hadj, rfl, rfl, (hiff hadj _).mpr hand⟩

end FlagLogic
