import FlagLogic.Proofs.Parse.Grammar

/-!
Texts with adjacent operands. The fold order does not look at adjacency: it is only the number of
formulas on the stack that gives adjacent operands away, so a surplus operand in one place may be
taken by an operator that lacks one in another. `Supplies` is the rule that texts really have to
obey. Main statement: a text with adjacent operands is refused under all limits exactly if it breaks
this rule, and a text that obeys it lacks an operand somewhere else.
-/

namespace FlagLogic

open FoldOrder Fold

/-! ## The operands at hand -/

/-- What a connective that waits does when its turn comes: it takes the two latest operands at hand
and leaves one. -/
inductive Settles : (waits : Bool) → (before after : Nat) → Prop
  | idle (n : Nat) : Settles false n n
  | take (n : Nat) : Settles true (n + 2) (n + 1)

/-- Reading the lexemes of a group, or of a rest of it, with `before` operands at hand leaves
`after` of them. A connective that waits has its turn right after the next operand of its group, or
at the end of the group; which operands it takes then, of this group or of those around it, is all
the same. A negation needs one operand at hand after its group. -/
inductive Supplies : (waits : Bool) → List Lexeme → (before after : Nat) → Prop
  | nil {w : Bool} {m n : Nat} (turn : Settles w m n) : Supplies w [] m n
  | connective {c : Connective} {ls : List Lexeme} {m n : Nat} (next : Supplies true ls m n) :
      Supplies false (.connective c :: ls) m n
  | leaf {w : Bool} {x : Lexeme} {f : Formula} {ls : List Lexeme} {m k n : Nat}
      (leaf : x.leaf? = some f) (turn : Settles w (m + 1) k) (next : Supplies false ls k n) :
      Supplies w (x :: ls) m n
  | group {w : Bool} {body ls : List Lexeme} {m k l n : Nat} (inner : Supplies false body m k)
      (turn : Settles w k l) (next : Supplies false ls l n) :
      Supplies w (.opening :: body ++ .closing :: ls) m n
  | negation {w : Bool} {body ls : List Lexeme} {m k l n : Nat}
      (inner : Supplies false body m (k + 1)) (turn : Settles w (k + 1) l)
      (next : Supplies false ls l n) :
      Supplies w (.negation :: .opening :: body ++ .closing :: ls) m n

theorem settles_of_steps? {p : Option Connective} {stack stack' : List Formula}
    (h : steps? stack (waiting p) = some stack') :
    Settles p.isSome stack.length stack'.length := by
  cases p with
  | none => cases h; exact .idle _
  | some c =>
    obtain ⟨mid, hstep, hmid⟩ := steps?_cons_eq_some_iff.mp h
    cases hmid
    cases hstep with
    | leaf harity => cases harity
    | binary => exact .take _

theorem steps?_of_settles {p : Option Connective} {m n : Nat} (h : Settles p.isSome m n)
    (stack : List Formula) (hm : stack.length = m) :
    ∃ stack', steps? stack (waiting p) = some stack' ∧ stack'.length = n := by
  cases p with
  | none => cases h; exact ⟨stack, rfl, hm⟩
  | some c =>
    cases h with
    | take n =>
      match stack, hm with
      | x :: y :: rest, hm => exact ⟨_, rfl, by simpa using hm⟩

theorem steps?_append_waiting {p : Option Connective} {stack stack' outer : List Formula}
    (inner : List Formula) :
    steps? stack (inner ++ waiting p ++ outer) = some stack' ↔
      ∃ a b, steps? stack inner = some a ∧ steps? a (waiting p) = some b
        ∧ steps? b outer = some stack' := by
  rw [steps?_append, steps?_append]
  simp only [Option.bind_eq_some_iff]
  constructor
  · rintro ⟨b, ⟨a, ha, hb⟩, h⟩
    exact ⟨a, b, ha, hb, h⟩
  · rintro ⟨a, b, ha, hb, h⟩
    exact ⟨b, ⟨a, ha, hb⟩, h⟩

/-- A negation behind its group is folded if the group leaves it an operand. -/
theorem steps?_negation {stack stack' inner : List Formula} :
    steps? stack (inner ++ [.not .hole]) = some stack' ↔
      ∃ x rest, steps? stack inner = some (x :: rest) ∧ stack' = .not x :: rest := by
  rw [steps?_append, Option.bind_eq_some_iff]
  constructor
  · rintro ⟨a, ha, hnot⟩
    obtain ⟨mid, hstep, hmid⟩ := steps?_cons_eq_some_iff.mp hnot
    cases hmid
    cases hstep with
    | leaf harity => cases harity
    | not old x rest => exact ⟨x, rest, ha, rfl⟩
  · rintro ⟨x, rest, ha, rfl⟩
    exact ⟨x :: rest, ha, rfl⟩

/-- Nodes in fold order that can be folded are supplied with operands. -/
theorem Arranged.supplies {p : Option Connective} {ls : List Lexeme} {nodes : List Formula}
    (h : Arranged p ls nodes) {stack stack' : List Formula}
    (hsteps : steps? stack nodes = some stack') :
    Supplies p.isSome ls stack.length stack'.length := by
  induction h generalizing stack stack' with
  | nil p => exact .nil (settles_of_steps? hsteps)
  | connective _ ih => exact .connective (ih hsteps)
  | @leaf p x f ls nodes hx _ ih =>
    obtain ⟨a, b, ha, hb, hn⟩ := (steps?_append_waiting [f]).mp hsteps
    rw [steps?_leaf hx] at ha
    cases ha
    exact .leaf hx (settles_of_steps? hb) (ih hn)
  | group _ _ ihb ihl =>
    obtain ⟨a, b, ha, hb, hn⟩ := (steps?_append_waiting _).mp hsteps
    exact .group (ihb ha) (settles_of_steps? hb) (ihl hn)
  | @negation p body ls inner outer _ _ ihb ihl =>
    have heq : inner ++ .not .hole :: waiting p ++ outer
        = inner ++ [.not .hole] ++ waiting p ++ outer := by simp
    rw [heq] at hsteps
    obtain ⟨a, b, ha, hb, hn⟩ := (steps?_append_waiting _).mp hsteps
    obtain ⟨x, rest, hx, rfl⟩ := steps?_negation.mp ha
    exact .negation (ihb hx) (settles_of_steps? hb) (ihl hn)

/-- Lexemes that are supplied with operands have a fold order, and it can be folded. -/
theorem Supplies.arranged {w : Bool} {ls : List Lexeme} {m n : Nat} (h : Supplies w ls m n)
    {p : Option Connective} (hp : p.isSome = w) :
    ∃ nodes, Arranged p ls nodes ∧ ∀ stack : List Formula, stack.length = m →
      ∃ stack', steps? stack nodes = some stack' ∧ stack'.length = n := by
  induction h generalizing p with
  | nil hturn =>
    subst hp
    exact ⟨waiting p, .nil p, fun stack hm => steps?_of_settles hturn stack hm⟩
  | @connective c ls m n _ ih =>
    obtain rfl : p = none := by simpa using hp
    obtain ⟨nodes, harr, hfold⟩ := ih (p := some c) rfl
    exact ⟨nodes, harr.connective, hfold⟩
  | @leaf w x f ls m k n hx hturn _ ih =>
    subst hp
    obtain ⟨nodes, harr, hfold⟩ := ih (p := none) rfl
    refine ⟨_, .leaf hx harr, fun stack hm => ?_⟩
    obtain ⟨b, hb, hbn⟩ := steps?_of_settles hturn (f :: stack) (by simp [hm])
    obtain ⟨stack', hs, hn⟩ := hfold b hbn
    exact ⟨stack', (steps?_append_waiting [f]).mpr ⟨_, b, steps?_leaf hx stack, hb, hs⟩, hn⟩
  | group _ hturn _ ihb ihl =>
    subst hp
    obtain ⟨inner, hinner, hfoldb⟩ := ihb (p := none) rfl
    obtain ⟨outer, houter, hfoldl⟩ := ihl (p := none) rfl
    refine ⟨_, .group hinner houter, fun stack hm => ?_⟩
    obtain ⟨a, ha, hak⟩ := hfoldb stack hm
    obtain ⟨b, hb, hbl⟩ := steps?_of_settles hturn a hak
    obtain ⟨stack', hs, hn⟩ := hfoldl b hbl
    exact ⟨stack', (steps?_append_waiting _).mpr ⟨a, b, ha, hb, hs⟩, hn⟩
  | negation _ hturn _ ihb ihl =>
    subst hp
    obtain ⟨inner, hinner, hfoldb⟩ := ihb (p := none) rfl
    obtain ⟨outer, houter, hfoldl⟩ := ihl (p := none) rfl
    refine ⟨_, .negation hinner houter, fun stack hm => ?_⟩
    obtain ⟨a, ha, hak⟩ := hfoldb stack hm
    match a, hak with
    | x :: rest, hak =>
      obtain ⟨b, hb, hbl⟩ := steps?_of_settles hturn (.not x :: rest) hak
      obtain ⟨stack', hs, hn⟩ := hfoldl b hbl
      have hneg := steps?_negation.mpr ⟨x, rest, ha, rfl⟩
      have := (steps?_append_waiting _).mpr ⟨_, b, hneg, hb, hs⟩
      exact ⟨stack', by simpa using this, hn⟩

/-- A text is parsed under some limits exactly if its lexemes are supplied with operands and leave
one. -/
theorem exists_parse_iff_supplies {text : String} {ts : List Token} (hts : tokenize text = .ok ts) :
    (∃ limits f, parse limits text = .ok f) ↔ Supplies false (lexemes ts) 0 1 := by
  constructor
  · rintro ⟨limits, f, h⟩
    obtain ⟨nodes, harr, hsteps, -⟩ := (parse_eq_ok_iff_of_tokenize hts).mp h
    exact harr.supplies hsteps
  · intro h
    obtain ⟨nodes, harr, hfold⟩ := h.arranged (p := none) rfl
    obtain ⟨stack, hsteps, hone⟩ := hfold [] rfl
    obtain ⟨f, rfl⟩ := List.length_eq_one_iff.mp hone
    refine ⟨⟨nodeCount (lexemes ts) + 1, nesting (lexemes ts)⟩, f,
      (parse_eq_ok_iff_of_tokenize hts).mpr ⟨nodes, harr, hsteps, ?_, .inr (Int.le_refl _)⟩⟩
    show (nodeCount (lexemes ts) : Int) < nodeCount (lexemes ts) + 1
    omega

/-! ## Missing operands -/

/-- The lexeme wants an operand behind it. -/
def Lexeme.wantsOperand : Lexeme → Bool
  | .opening | .connective _ => true
  | _ => false

/-- Somewhere an operand is missing: at the start of the text or of a group, or behind a
connective. -/
def MissingOperand (ls : List Lexeme) : Prop :=
  ∃ before a b after, .opening :: ls ++ [.closing] = before ++ a :: b :: after
    ∧ a.wantsOperand ∧ b.startsOperand = false

/-- The second lexeme may follow the first one if no operand is to be missing. -/
def Furnishes (a b : Lexeme) : Prop := a.wantsOperand → b.startsOperand

/-- The lexemes start with an operand. -/
def Starts (ls : List Lexeme) : Prop := ∃ x ∈ ls.head?, x.startsOperand

theorem not_starts_nil : ¬Starts [] := by simp [Starts]

theorem not_starts_connective (c : Connective) (ls : List Lexeme) :
    ¬Starts (.connective c :: ls) := by
  simp [Starts, Lexeme.startsOperand]

theorem not_adjacentOperands_nil : ¬AdjacentOperands [] := by simp [AdjacentOperands]

/-- Up to the closing parenthesis of their group, the lexemes have an operand wherever one is
wanted. -/
def Furnished (ls : List Lexeme) : Prop := List.IsChain Furnishes (ls ++ [.closing])

theorem starts_furnished_of_group {ls : List Lexeme}
    (h : List.IsChain Furnishes (.opening :: (ls ++ [.closing]))) : Starts ls ∧ Furnished ls := by
  rw [List.isChain_cons] at h
  refine ⟨?_, h.2⟩
  cases ls with
  | nil => exact absurd (h.1 .closing rfl rfl) (by simp [Lexeme.startsOperand])
  | cons x ls => exact ⟨x, rfl, h.1 x rfl rfl⟩

theorem starts_furnished_of_not_missing {ls : List Lexeme} (h : ¬MissingOperand ls) :
    Starts ls ∧ Furnished ls := by
  refine starts_furnished_of_group (List.isChain_iff_forall_rel_of_append_cons_cons.mpr ?_)
  intro a b before after hls ha
  cases hb : b.startsOperand with
  | true => rfl
  | false => exact absurd ⟨before, a, b, after, hls, ha, hb⟩ h

theorem furnished_cons {x : Lexeme} {ls : List Lexeme} :
    Furnished (x :: ls) ↔ (∀ y ∈ (ls ++ [Lexeme.closing]).head?, Furnishes x y) ∧ Furnished ls := by
  unfold Furnished
  rw [List.cons_append, List.isChain_cons]

/-- A group that is furnished starts with an operand. -/
theorem furnished_of_group {body ls : List Lexeme}
    (h : Furnished (.opening :: body ++ .closing :: ls)) :
    Starts body ∧ Furnished body ∧ Furnished ls := by
  have heq : .opening :: body ++ .closing :: ls ++ [.closing]
      = (.opening :: body) ++ Lexeme.closing :: (ls ++ [.closing]) := by simp
  unfold Furnished at h
  rw [heq, List.isChain_split] at h
  obtain ⟨hstart, hbody⟩ := starts_furnished_of_group h.1
  exact ⟨hstart, hbody, (furnished_cons (x := .closing).mp h.2).2⟩

/-- Adjacent operands stand at the front of a rest or further behind. -/
theorem adjacentOperands_cons {x : Lexeme} {ls : List Lexeme} (h : AdjacentOperands (x :: ls)) :
    (x.endsOperand ∧ Starts ls) ∨ AdjacentOperands ls := by
  obtain ⟨before, a, b, after, hls, ha, hb⟩ := h
  cases before with
  | nil =>
    cases hls
    exact .inl ⟨ha, b, rfl, hb⟩
  | cons y before =>
    cases hls
    exact .inr ⟨before, a, b, after, rfl, ha, hb⟩

/-- Adjacent operands stand in a group, at the end of it or behind it. -/
theorem adjacentOperands_group {body ls : List Lexeme}
    (h : AdjacentOperands (.opening :: body ++ .closing :: ls)) :
    AdjacentOperands body ∨ Starts ls ∨ AdjacentOperands ls := by
  by_contra hno
  obtain ⟨hbody, hrest⟩ := not_or.mp hno
  obtain ⟨hstart, hls⟩ := not_or.mp hrest
  have hclosing : ¬AdjacentOperands (.closing :: ls) := fun h =>
    (adjacentOperands_cons h).elim (fun h => hstart h.2) hls
  have hopening : ¬AdjacentOperands (.opening :: body) := fun h =>
    (adjacentOperands_cons h).elim (fun h => absurd h.1 (by simp [Lexeme.endsOperand])) hbody
  refine absurd h (not_adjacentOperands_iff.mpr ?_)
  rw [List.isChain_append]
  refine ⟨not_adjacentOperands_iff.mp hopening, not_adjacentOperands_iff.mp hclosing, ?_⟩
  rintro a - b hb ⟨-, hstarts⟩
  cases hb
  cases hstarts

/-! ## Surplus operands -/

/-- What the lexemes add to the stack: nothing is lacking, there is a formula if they start with an
operand that no connective waits for, and adjacent operands add one more. -/
structure Plentiful (p : Option Connective) (ls : List Lexeme) (added : Int) : Prop where
  nonneg : 0 ≤ added
  one : p = none → Starts ls → 1 ≤ added
  adjacent : AdjacentOperands ls → 1 ≤ added
  two : AdjacentOperands ls → p = none → Starts ls → 2 ≤ added

/-- An operand with what follows it. -/
theorem plentiful_operand {p : Option Connective} (os : List Lexeme) {ls : List Lexeme}
    {inner outer : Int} (hinner : 1 ≤ inner) (houter : Plentiful none ls outer)
    (hadj : AdjacentOperands os → 2 ≤ inner ∨ Starts ls ∨ AdjacentOperands ls) :
    Plentiful p os (inner + surplus (waiting p) + outer) := by
  have hnonneg := houter.nonneg
  have hwait : -1 ≤ surplus (waiting p) := by
    rw [surplus_waiting]
    split <;> omega
  have hextra : AdjacentOperands os → 2 ≤ inner ∨ 1 ≤ outer := by
    intro h
    rcases hadj h with h | h | h
    · exact .inl h
    · exact .inr (houter.one rfl h)
    · exact .inr (houter.adjacent h)
  constructor
  · omega
  · rintro rfl _
    rw [waiting, surplus_nil]
    omega
  · intro h
    have := hextra h
    omega
  · rintro h rfl _
    have := hextra h
    rw [waiting, surplus_nil]
    omega

/-- Where no operand is missing, adjacent operands leave a surplus. -/
theorem Arranged.plentiful {p : Option Connective} {ls : List Lexeme} {nodes : List Formula}
    (h : Arranged p ls nodes) (hls : Furnished ls) (hp : p ≠ none → Starts ls) :
    Plentiful p ls (surplus nodes) := by
  induction h with
  | nil p =>
    have hnone : p = none := by
      by_contra h
      exact not_starts_nil (hp h)
    subst hnone
    exact ⟨Int.le_refl 0, fun _ h => absurd h not_starts_nil,
      fun h => absurd h not_adjacentOperands_nil, fun h => absurd h not_adjacentOperands_nil⟩
  | @connective c ls nodes hrest ih =>
    obtain ⟨hwant, hfurnished⟩ := furnished_cons.mp hls
    have hstart : Starts ls := by
      cases ls with
      | nil => cases hwant .closing rfl rfl
      | cons x ls => exact ⟨x, rfl, hwant x rfl rfl⟩
    have hmore := ih hfurnished fun _ => hstart
    have hadj : AdjacentOperands (.connective c :: ls) → AdjacentOperands ls := by
      intro h
      rcases adjacentOperands_cons h with ⟨hends, -⟩ | h
      · cases hends
      · exact h
    exact ⟨hmore.nonneg, fun _ h => absurd h (not_starts_connective c ls),
      fun h => hmore.adjacent (hadj h), fun _ _ h => absurd h (not_starts_connective c ls)⟩
  | @leaf p x f ls nodes hx _ ih =>
    have hrest := ih (furnished_cons.mp hls).2 fun h => absurd rfl h
    have hadj : AdjacentOperands (x :: ls) → 2 ≤ (1 : Int) ∨ Starts ls ∨ AdjacentOperands ls :=
      fun h => .inr ((adjacentOperands_cons h).imp_left And.right)
    have := plentiful_operand (p := p) (x :: ls) (Int.le_refl 1) hrest hadj
    simpa [Lexeme.arity_of_leaf? hx, Int.add_assoc] using this
  | @group p body ls inner outer _ _ ihb ihl =>
    obtain ⟨hstart, hbody, hrest⟩ := furnished_of_group hls
    have hinner := ihb hbody fun h => absurd rfl h
    have houter := ihl hrest fun h => absurd rfl h
    have := plentiful_operand (p := p) (.opening :: body ++ .closing :: ls)
      (hinner.one rfl hstart) houter
      fun h => (adjacentOperands_group h).imp_left fun h => hinner.two h rfl hstart
    rw [surplus_append, surplus_append]
    exact this
  | @negation p body ls inner outer _ _ ihb ihl =>
    obtain ⟨hstart, hbody, hrest⟩ := furnished_of_group (furnished_cons.mp hls).2
    have hinner := ihb hbody fun h => absurd rfl h
    have houter := ihl hrest fun h => absurd rfl h
    have hadj : AdjacentOperands (.negation :: .opening :: body ++ .closing :: ls) →
        2 ≤ surplus inner ∨ Starts ls ∨ AdjacentOperands ls := by
      intro h
      rcases adjacentOperands_cons h with ⟨hends, -⟩ | h
      · cases hends
      · exact (adjacentOperands_group h).imp_left fun h => hinner.two h rfl hstart
    have := plentiful_operand (p := p) _ (hinner.one rfl hstart) houter hadj
    simpa [Formula.arity, Int.add_assoc] using this

/-- **Adjacent operands.** A text with adjacent operands is refused under all limits exactly if its
operators do not find their operands on the stack; and if they find them, then because an operand
is missing in another place. -/
theorem adjacent_refused_iff {text : String} {ts : List Token} (hts : tokenize text = .ok ts)
    (hadj : AdjacentOperands (lexemes ts)) :
    ((∀ limits, Refused limits text) ↔ ¬Supplies false (lexemes ts) 0 1)
    ∧ (Supplies false (lexemes ts) 0 1 → MissingOperand (lexemes ts)) := by
  constructor
  · rw [← exists_parse_iff_supplies hts]
    simp only [refused_iff, not_exists]
  · intro hsup
    by_contra hmissing
    obtain ⟨hstart, hfurnished⟩ := starts_furnished_of_not_missing hmissing
    obtain ⟨nodes, harr, hfold⟩ := hsup.arranged (p := none) rfl
    obtain ⟨stack, hsteps, hone⟩ := hfold [] rfl
    -- the nodes leave two formulas by their arities, but the stack holds one
    have hcount := length_steps? nodes hsteps
    have htwo := (harr.plentiful hfurnished fun h => absurd rfl h).two hadj rfl hstart
    simp [hone] at hcount
    omega

/-- Two operands with only a connective behind them are taken for its operands. -/
theorem adjacent_accepted_before_connective :
    ∃ ts, tokenize "(a) b AND" = .ok ts ∧ AdjacentOperands (lexemes ts)
      ∧ (¬∀ limits, Refused limits "(a) b AND") ∧ MissingOperand (lexemes ts) := by
  have hts : tokenize "(a) b AND" = .ok [⟨.opening, 0⟩, ⟨.name "a", 1⟩, ⟨.closing, 2⟩,
      ⟨.name "b", 4⟩, ⟨.connective .and, 6⟩] := rfl
  have hadj : AdjacentOperands [.opening, .name "a", .closing, .name "b", .connective .and] :=
    ⟨[.opening, .name "a"], .closing, .name "b", [.connective .and], rfl, rfl, rfl⟩
  have hgroup : Supplies false [.name "a"] 0 1 := .leaf rfl (.idle 1) (.nil (.idle 1))
  have hrest : Supplies false [.name "b", .connective .and] 1 1 :=
    .leaf rfl (.idle 2) (.connective (.nil (.take 0)))
  have hsup := Supplies.group hgroup (.idle 1) hrest
  obtain ⟨hrefused, hmissing⟩ := adjacent_refused_iff hts hadj
  exact ⟨_, hts, hadj, fun h => hrefused.mp h hsup, hmissing hsup⟩

end FlagLogic
