import FlagLogic.Diagnostic
import FlagLogic.Proofs.Formula.Postorder

/-!
Heights of the stack. The arities alone tell how high the stack stands before each node, and so which
node is the first one to lack an operand: nodes can be folded exactly if none of them does
(`exists_steps?_iff`). Main statement: this place, the limit, the number of nodes and the height in
the end decide what folding reports, and in this order (`fold_outcome`).
-/

namespace FlagLogic

namespace Fold

open Formula

/-! ## Nodes that lack an operand -/

/-- How high the stack stands before the `k`-th node, counted from one. -/
def heightBefore (nodes : List Formula) (k : Nat) : Int := surplus (nodes.take (k - 1))

/-- The `k`-th node, counted from one, is this one, and its operator takes more formulas than the
nodes before it leave on the stack. -/
structure LacksOperand (nodes : List Formula) (k : Nat) (node : Formula) : Prop where
  pos : 0 < k
  place : nodes[k - 1]? = some node
  low : heightBefore nodes k < node.arity

/-- The `k`-th node lacks an operand, and no node before it does. -/
structure FirstLacking (nodes : List Formula) (k : Nat) (node : Formula) : Prop where
  lacks : LacksOperand nodes k node
  first : ∀ j n, LacksOperand nodes j n → k ≤ j

section

variable {nodes before : List Formula} {node : Formula} {k : Nat}

theorem lacksOperand_append (before after : List Formula) (node : Formula) :
    LacksOperand (before ++ node :: after) (before.length + 1) node ↔
      surplus before < node.arity := by
  constructor
  · intro h
    simpa [heightBefore] using h.low
  · intro h
    exact ⟨Nat.succ_pos _, by simp, by simpa [heightBefore] using h⟩

/-- The nodes before a node that lacks an operand, and those behind it. -/
theorem LacksOperand.split (h : LacksOperand nodes k node) :
    ∃ before after, nodes = before ++ node :: after ∧ before.length + 1 = k := by
  obtain ⟨hlt, hget⟩ := List.getElem?_eq_some_iff.mp h.place
  have hpos := h.pos
  refine ⟨nodes.take (k - 1), nodes.drop k, ?_, ?_⟩
  · have hdrop := List.drop_eq_getElem_cons hlt
    rw [hget, Nat.sub_add_cancel hpos] at hdrop
    rw [← hdrop, List.take_append_drop]
  · rw [List.length_take]
    omega

/-- More nodes behind it change nothing. -/
theorem LacksOperand.append (h : LacksOperand before k node) (after : List Formula) :
    LacksOperand (before ++ after) k node := by
  have hlt := (List.getElem?_eq_some_iff.mp h.place).1
  refine ⟨h.pos, ?_, ?_⟩
  · rw [List.getElem?_append_left hlt]
    exact h.place
  · rw [heightBefore, List.take_append_of_le_length (Nat.le_of_lt hlt)]
    exact h.low

end

/-! ## Nodes that can be folded -/

theorem step?_eq_none_iff {stack : List Formula} {node : Formula} :
    step? stack node = none ↔ stack.length < node.arity := by
  cases node with
  | not x => cases stack <;> simp [step?, arity]
  | binary c l r => rcases stack with _ | ⟨x, _ | ⟨y, stack⟩⟩ <;> simp [step?, arity]
  | _ => simp [step?, arity]

/-- Nodes are folded to the end, or up to the first one that finds too few formulas. -/
theorem steps?_cases (stack nodes : List Formula) :
    (∃ stack', steps? stack nodes = some stack')
    ∨ ∃ before node after mid, nodes = before ++ node :: after ∧ steps? stack before = some mid
      ∧ step? mid node = none := by
  induction nodes generalizing stack with
  | nil => exact .inl ⟨stack, rfl⟩
  | cons node nodes ih =>
    cases hstep : step? stack node with
    | none => exact .inr ⟨[], node, nodes, stack, rfl, rfl, hstep⟩
    | some next =>
      have hcons : ∀ ns, steps? stack (node :: ns) = steps? next ns := by
        intro ns
        rw [steps?_cons, hstep, Option.bind_some]
      rcases ih next with ⟨stack', hs⟩ | ⟨before, n, after, mid, rfl, hs, hnone⟩
      · exact .inl ⟨stack', by rw [hcons, hs]⟩
      · exact .inr ⟨node :: before, n, after, mid, rfl, by rw [hcons, hs], hnone⟩

/-- A node lacks an operand exactly if the stack that the nodes before it leave is too low for it. -/
theorem lacksOperand_iff_step? {before stack : List Formula} (h : steps? [] before = some stack)
    (node : Formula) (after : List Formula) :
    LacksOperand (before ++ node :: after) (before.length + 1) node ↔ step? stack node = none := by
  have hheight := length_steps? before h
  simp only [List.length_nil] at hheight
  rw [lacksOperand_append, step?_eq_none_iff]
  omega

/-- Nodes can be folded exactly if none of them lacks an operand. -/
theorem exists_steps?_iff {nodes : List Formula} :
    (∃ stack, steps? [] nodes = some stack) ↔ ∀ k node, ¬LacksOperand nodes k node := by
  constructor
  · rintro ⟨stack, hs⟩ k node h
    obtain ⟨before, after, rfl, rfl⟩ := h.split
    rw [steps?_append, Option.bind_eq_some_iff] at hs
    obtain ⟨mid, hmid, hrest⟩ := hs
    have hnone := (lacksOperand_iff_step? hmid node after).mp h
    rw [steps?_cons, hnone] at hrest
    cases hrest
  · intro h
    rcases steps?_cases [] nodes with hs | ⟨before, node, after, mid, rfl, hs, hnone⟩
    · exact hs
    · exact absurd ((lacksOperand_iff_step? hs node after).mpr hnone) (h _ _)

/-- The first node that lacks an operand is the one at which folding comes to a halt. -/
theorem firstLacking_iff {nodes : List Formula} {m : Nat} {node : Formula} :
    FirstLacking nodes m node ↔ ∃ before after stack, nodes = before ++ node :: after
      ∧ before.length + 1 = m ∧ steps? [] before = some stack ∧ step? stack node = none := by
  constructor
  · intro h
    obtain ⟨before, after, rfl, rfl⟩ := h.lacks.split
    have hnone : ∀ k n, ¬LacksOperand before k n := by
      intro k n hk
      have hle := h.first k n (hk.append _)
      have hlt := (List.getElem?_eq_some_iff.mp hk.place).1
      omega
    obtain ⟨stack, hs⟩ := exists_steps?_iff.mpr hnone
    exact ⟨before, after, stack, rfl, rfl, hs, (lacksOperand_iff_step? hs node after).mp h.lacks⟩
  · rintro ⟨before, after, stack, rfl, rfl, hs, hnone⟩
    refine ⟨(lacksOperand_iff_step? hs node after).mpr hnone, ?_⟩
    intro j n hj
    -- a node further to the front would be among those that can be folded
    refine Nat.not_lt.mp fun hlt => exists_steps?_iff.mp ⟨stack, hs⟩ j n ?_
    have hpos := hj.pos
    have hle : j - 1 ≤ before.length := by omega
    refine ⟨hpos, ?_, ?_⟩
    · rw [← hj.place, List.getElem?_append_left (by omega)]
    · have hlow := hj.low
      rwa [heightBefore, List.take_append_of_le_length hle] at hlow

/-! ## The run up to a node -/

section Run

variable {limit : Int} {expression : Option String} {stack : List Formula}

/-- Below the limit, nodes that can be folded are done with. -/
theorem run_append (after : List Formula) :
    ∀ {count : Nat} {stack₀ : List Formula} (before : List Formula),
      steps? stack₀ before = some stack → (count + before.length : Int) < limit →
        run limit expression count stack₀ (before ++ after)
          = run limit expression (count + before.length) stack after
  | _, _, [], h, _ => by cases h; rfl
  | count, stack₀, node :: before, h, hlim => by
    obtain ⟨mid, hstep, hrest⟩ := steps?_cons_eq_some_iff.mp h
    simp only [List.length_cons] at hlim ⊢
    rw [List.cons_append, run, if_neg (by omega)]
    simp only [step?_eq_some_iff.mpr hstep]
    rw [run_append after before hrest (by omega), Nat.add_right_comm, Nat.add_assoc]

variable {nodes : List Formula} {node : Formula} {m : Nat}

theorem run_of_firstLacking (h : FirstLacking nodes m node) (hm : (m : Int) < limit) :
    run limit expression 0 [] nodes
      = .error (.malformed (.missingOperand node.keyword) expression) := by
  obtain ⟨before, after, stack, rfl, rfl, hs, hnone⟩ := firstLacking_iff.mp h
  rw [run_append (node :: after) before hs (by omega), run, if_neg (by omega)]
  simp only [hnone]

/-- Where no node lacks an operand below the limit, the limit is what stops the run. -/
theorem run_of_limit_le (hne : nodes ≠ []) (h : ∀ m node, FirstLacking nodes m node → limit ≤ m)
    (hlim : limit ≤ nodes.length) :
    run limit expression 0 [] nodes = .error (.tooMany limit expression) := by
  rcases steps?_cases [] nodes with ⟨stack, hs⟩ | ⟨before, node, after, mid, rfl, hs, hnone⟩
  · exact run_tooMany hne hs (by omega)
  · have hm := h _ _ (firstLacking_iff.mpr ⟨before, after, mid, rfl, rfl, hs, hnone⟩)
    exact run_append_tooMany node after before hs (by omega)

/-- Below the limit, nodes none of which lacks an operand are folded to formulas: to as many as their
heights say, and these have the nodes among them, in their order. -/
theorem run_of_lt (expression : Option String)
    (h : ∀ m node, FirstLacking nodes m node → limit ≤ m) (hlim : (nodes.length : Int) < limit) :
    ∃ stack, run limit expression 0 [] nodes = .ok stack ∧ (stack.length : Int) = surplus nodes
      ∧ flat stack = nodes.map bare := by
  rcases steps?_cases [] nodes with ⟨stack, hs⟩ | ⟨before, node, after, mid, rfl, hs, hnone⟩
  · have hheight := length_steps? nodes hs
    rw [List.length_nil, Int.natCast_zero, Int.zero_add] at hheight
    exact ⟨stack, (run_eq_ok_iff nodes).mpr ⟨hs, .inr (by omega)⟩, hheight, postorder_steps? nodes hs⟩
  · have hm := h _ _ (firstLacking_iff.mpr ⟨before, after, mid, rfl, rfl, hs, hnone⟩)
    simp only [List.length_append, List.length_cons] at hlim
    omega

end Run

end Fold

open Formula Fold

/-! ## What folding reports -/

theorem summary_manyRoots {n : Nat} {texts : List String} (h : texts.length = n) :
    (Flaw.manyRoots texts).summary = "Expected a single expression but found " ++ toString (n : Int)
      ++ ": " ++ ", ".intercalate texts := by
  subst h
  rfl

/-- More or fewer than one formula in the end are reported, from left to right. -/
theorem fold_of_run_ok {nodes stack : List Formula} {limit : Int} {expression : Option String}
    (hne : nodes ≠ []) (h : run limit expression 0 [] nodes = .ok stack) (hmany : stack.length ≠ 1) :
    fold nodes limit expression
      = .error (.malformed (.manyRoots (stack.reverse.map text)) expression) := by
  rw [fold, if_neg hne, h]
  rcases stack with _ | ⟨f, _ | ⟨g, stack⟩⟩
  · rfl
  · exact absurd rfl hmany
  · rfl

/-- A fold with its error in words. -/
def foldReport (nodes : List Formula) (limit : Int) (expression : Option String) :
    Except Diagnostic Formula :=
  (fold nodes limit expression).mapError Error.diagnostic

/-- **What folding reports.** Nothing to fold is reported first. Then a node that lacks an operand, if
the limit is not reached up to it; then the limit; and then more than one formula in the end, with
their number and their canonical texts. If there is nothing to report, folding gives a formula. -/
theorem fold_outcome (nodes : List Formula) (limit : Int) (expression : Option String) :
    (nodes = [] →
      foldReport nodes limit expression = .error (.sequence "Empty expression" "empty" expression))
    ∧ (∀ m node, FirstLacking nodes m node → (m : Int) < limit →
      foldReport nodes limit expression
        = .error (.sequence ("Missing operand for " ++ node.keyword) "missing_operand" expression))
    ∧ (nodes ≠ [] → (∀ m node, FirstLacking nodes m node → limit ≤ m) →
      (limit ≤ nodes.length →
        foldReport nodes limit expression
          = .error (.limit ("Operation limit of " ++ toString limit
              ++ " reached, too many operations") limit expression))
      ∧ ((nodes.length : Int) < limit → surplus nodes ≠ 1 →
        ∃ roots : List Formula, (roots.length : Int) = surplus nodes
          ∧ roots.flatMap postorder = nodes.map bare
          ∧ foldReport nodes limit expression
            = .error (.sequence ("Expected a single expression but found "
                ++ toString (surplus nodes) ++ ": " ++ ", ".intercalate (roots.map text))
                "multiple_roots" expression))
      ∧ ((nodes.length : Int) < limit → surplus nodes = 1 →
        ∃ f, foldReport nodes limit expression = .ok f ∧ f.postorder = nodes.map bare)) := by
  have hrun : ∀ e, nodes ≠ [] → run limit expression 0 [] nodes = .error e →
      foldReport nodes limit expression = .error e.diagnostic := by
    intro e hne h
    rw [foldReport, fold, if_neg hne, h]
    rfl
  refine ⟨?_, ?_, ?_⟩
  · rintro rfl
    rfl
  · intro m node hfirst hm
    have hne : nodes ≠ [] := by
      rintro rfl
      cases hfirst.lacks.place
    exact hrun _ hne (run_of_firstLacking hfirst hm)
  · intro hne hfirst
    refine ⟨?_, ?_, ?_⟩
    · intro hlim
      exact hrun _ hne (run_of_limit_le hne hfirst hlim)
    · intro hlim hmany
      obtain ⟨stack, hok, hheight, hflat⟩ := run_of_lt expression hfirst hlim
      refine ⟨stack.reverse, by rw [List.length_reverse, hheight], hflat, ?_⟩
      have hlength : stack.length ≠ 1 := by omega
      have hcount : (stack.reverse.map text).length = stack.length := by simp
      rw [foldReport, fold_of_run_ok hne hok hlength, ← hheight, ← summary_manyRoots hcount]
      rfl
    · intro hlim hone
      obtain ⟨stack, hok, hheight, hflat⟩ := run_of_lt expression hfirst hlim
      obtain ⟨f, rfl⟩ := List.length_eq_one_iff.mp (show stack.length = 1 by omega)
      refine ⟨f, ?_, by simpa [flat] using hflat⟩
      rw [foldReport, fold, if_neg hne, hok]
      rfl

/-- A node that lacks an operand is reported if the limit lies behind it, and the limit if it is
reached there. -/
theorem fold_outcome_at_operator :
    FirstLacking [.setting "a", .binary .and .hole .hole, .literal true] 2 (.binary .and .hole .hole)
    ∧ foldReport [.setting "a", .binary .and .hole .hole, .literal true] 3 none
      = .error (.sequence "Missing operand for AND" "missing_operand" none)
    ∧ foldReport [.setting "a", .binary .and .hole .hole, .literal true] 2 none
      = .error (.limit "Operation limit of 2 reached, too many operations" 2 none) := by
  have hfirst : FirstLacking [.setting "a", .binary .and .hole .hole, .literal true] 2
      (.binary .and .hole .hole) :=
    firstLacking_iff.mpr ⟨[.setting "a"], [.literal true], [.setting "a"], rfl, rfl, rfl, rfl⟩
  have hle : ∀ m node, FirstLacking [.setting "a", .binary .and .hole .hole, .literal true] m node →
      (2 : Int) ≤ m := by
    intro m node h
    have := hfirst.first m node h.lacks
    omega
  obtain ⟨-, hlacks, -⟩ := fold_outcome [.setting "a", .binary .and .hole .hole, .literal true] 3 none
  obtain ⟨-, -, hlimit⟩ := fold_outcome [.setting "a", .binary .and .hole .hole, .literal true] 2 none
  exact ⟨hfirst, hlacks 2 _ hfirst (by decide), (hlimit (by simp) hle).1 (by decide)⟩

end FlagLogic
