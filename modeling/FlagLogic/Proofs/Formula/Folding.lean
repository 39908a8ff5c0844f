import FlagLogic.Formula.Fold
import FlagLogic.Trace

/-!
Folding on a stack. `steps?` is folding without limits and errors. Main statements: `fold` gives
a formula exactly if the nodes fold to that one formula and are fewer than the limit
(`fold_eq_ok_iff`), and refuses them for their number if they are not fewer (`fold_tooMany`); what
lies deeper on the stack does not matter (`steps?_frame`); the height of the stack is known from the
arities alone (`length_steps?`), and so are the nodes of what is folded (`sizes_steps?`).
-/

namespace FlagLogic

namespace Fold

/-- Folds nodes onto a stack; none if some operator finds too few operands. -/
def steps? (stack nodes : List Formula) : Option (List Formula) := nodes.foldlM step? stack

@[simp] theorem steps?_nil (stack : List Formula) : steps? stack [] = some stack := rfl

theorem steps?_cons (stack : List Formula) (node : Formula) (nodes : List Formula) :
    steps? stack (node :: nodes) = (step? stack node).bind (steps? · nodes) := rfl

theorem steps?_append (stack xs ys : List Formula) :
    steps? stack (xs ++ ys) = (steps? stack xs).bind (steps? · ys) := List.foldlM_append

/-! ## One step -/

/-- What one step does to the stack. -/
inductive Step : (stack : List Formula) → (node : Formula) → (stack' : List Formula) → Prop
  | leaf {f : Formula} (arity : f.arity = 0) (stack : List Formula) : Step stack f (f :: stack)
  | not (old x : Formula) (rest : List Formula) : Step (x :: rest) (.not old) (.not x :: rest)
  | binary (c : Connective) (oldLeft oldRight left right : Formula) (rest : List Formula) :
      Step (right :: left :: rest) (.binary c oldLeft oldRight) (.binary c left right :: rest)

theorem step?_eq_some_iff {stack stack' : List Formula} {node : Formula} :
    step? stack node = some stack' ↔ Step stack node stack' := by
  constructor
  · intro h
    cases node with
    | not old =>
      match stack, h with
      | _ :: _, h => cases h; exact .not ..
    | binary c l r =>
      match stack, h with
      | _ :: _ :: _, h => cases h; exact .binary ..
    | _ => cases h; exact .leaf rfl _
  · intro h
    cases h with
    | leaf ha =>
      cases node with
      | not x => cases ha
      | binary c l r => cases ha
      | _ => rfl
    | not => rfl
    | binary => rfl

theorem steps?_cons_eq_some_iff {stack stack' : List Formula} {node : Formula}
    {nodes : List Formula} :
    steps? stack (node :: nodes) = some stack' ↔
      ∃ mid, Step stack node mid ∧ steps? mid nodes = some stack' := by
  rw [steps?_cons, Option.bind_eq_some_iff]
  simp only [step?_eq_some_iff]

/-- What lies deeper on the stack is not touched, and does not matter. -/
theorem Step.frame {stack stack' : List Formula} {node : Formula} (h : Step stack node stack')
    (below : List Formula) : Step (stack ++ below) node (stack' ++ below) := by
  cases h with
  | leaf harity => exact .leaf harity _
  | not => exact .not ..
  | binary => exact .binary ..

theorem steps?_frame {stack' : List Formula} (below : List Formula) :
    ∀ {stack : List Formula} (nodes : List Formula), steps? stack nodes = some stack' →
      steps? (stack ++ below) nodes = some (stack' ++ below)
  | _, [], h => by cases h; rfl
  | _, node :: nodes, h => by
    obtain ⟨mid, hstep, hrest⟩ := steps?_cons_eq_some_iff.mp h
    exact steps?_cons_eq_some_iff.mpr ⟨_, hstep.frame below, steps?_frame below nodes hrest⟩

/-! ## Heights -/

/-- How many formulas a sequence leaves on the stack beyond those that it found there. -/
def surplus : List Formula → Int
  | [] => 0
  | f :: nodes => 1 - f.arity + surplus nodes

@[simp] theorem surplus_nil : surplus [] = 0 := rfl

@[simp] theorem surplus_cons (f : Formula) (nodes : List Formula) :
    surplus (f :: nodes) = 1 - f.arity + surplus nodes := rfl

@[simp] theorem surplus_append (xs ys : List Formula) :
    surplus (xs ++ ys) = surplus xs + surplus ys := by
  induction xs with
  | nil => simp
  | cons f xs ih =>
    rw [List.cons_append, surplus_cons, surplus_cons, ih]
    omega

theorem Step.length {stack stack' : List Formula} {node : Formula} (h : Step stack node stack') :
    (stack'.length : Int) = stack.length + (1 - node.arity) := by
  cases h with
  | leaf ha => rw [ha]; simp
  | not => simp [Formula.arity]
  | binary => simp only [List.length_cons, Formula.arity]; omega

theorem length_steps? : ∀ {stack stack' : List Formula} (nodes : List Formula),
    steps? stack nodes = some stack' → (stack'.length : Int) = stack.length + surplus nodes
  | stack, _, [], h => by cases h; simp
  | stack, stack', node :: nodes, h => by
    obtain ⟨mid, hstep, hrest⟩ := steps?_cons_eq_some_iff.mp h
    have h₁ := hstep.length
    have h₂ := length_steps? nodes hrest
    rw [surplus_cons]
    omega

/-! ## What is on the stack -/

/-- The number of nodes of all formulas on a stack. -/
def sizes : List Formula → Nat
  | [] => 0
  | f :: stack => f.size + sizes stack

theorem Step.sizes {stack stack' : List Formula} {node : Formula} (h : Step stack node stack') :
    sizes stack' = sizes stack + 1 := by
  cases h with
  | leaf ha =>
    have hone : node.size = 1 := by cases node <;> first | rfl | cases ha
    simp only [Fold.sizes, hone]
    omega
  | not => simp [Fold.sizes, Formula.size]; omega
  | binary => simp [Fold.sizes, Formula.size]; omega

/-- Folding neither loses nor adds nodes. -/
theorem sizes_steps? : ∀ {stack stack' : List Formula} (nodes : List Formula),
    steps? stack nodes = some stack' → sizes stack' = sizes stack + nodes.length
  | _, _, [], h => by cases h; rfl
  | stack, stack', node :: nodes, h => by
    obtain ⟨mid, hstep, hrest⟩ := steps?_cons_eq_some_iff.mp h
    have h₁ := hstep.sizes
    have h₂ := sizes_steps? nodes hrest
    rw [List.length_cons]
    omega

/-! ## The limit -/

theorem run_eq_ok_iff {limit : Int} {expression : Option String} : ∀ {count : Nat}
    {stack stack' : List Formula} (nodes : List Formula),
    run limit expression count stack nodes = .ok stack' ↔
      steps? stack nodes = some stack' ∧ (nodes = [] ∨ (count + nodes.length : Int) < limit)
  | _, _, _, [] => by simp [run]
  | count, stack, stack', node :: nodes => by
    rw [run, steps?_cons]
    split
    · simp only [List.length_cons, reduceCtorEq, false_or, false_iff]
      omega
    · cases hs : step? stack node with
      | none => simp
      | some mid =>
        have hlim : nodes = [] ∨ (count + 1 + nodes.length : Int) < limit ↔
            (count + (node :: nodes).length : Int) < limit := by
          cases nodes with
          | nil => simp; omega
          | cons => simp only [List.length_cons, reduceCtorEq, false_or]; omega
        simp only [run_eq_ok_iff nodes]
        simp [hlim]

/-- The node that reaches the limit is refused, whatever operands it finds. -/
theorem run_append_tooMany {limit : Int} {expression : Option String} {stack' : List Formula}
    (node : Formula) (after : List Formula) :
    ∀ {count : Nat} {stack : List Formula} (before : List Formula),
      steps? stack before = some stack' → limit ≤ (count + before.length + 1 : Int) →
        run limit expression count stack (before ++ node :: after)
          = .error (.tooMany limit expression)
  | count, _, [], _, hlim => by
    simp only [List.length_nil] at hlim
    rw [List.nil_append, run, if_pos (by omega)]
  | count, stack, n :: before, h, hlim => by
    obtain ⟨mid, hstep, hrest⟩ := steps?_cons_eq_some_iff.mp h
    simp only [List.length_cons] at hlim
    rw [List.cons_append, run]
    split
    · rfl
    · simp only [step?_eq_some_iff.mpr hstep]
      exact run_append_tooMany node after before hrest (by omega)

/-- Nodes that would fold, but reach the limit. -/
theorem run_tooMany {limit : Int} {expression : Option String} {count : Nat}
    {stack stack' nodes : List Formula} (hne : nodes ≠ []) (h : steps? stack nodes = some stack')
    (hlim : limit ≤ (count + nodes.length : Int)) :
    run limit expression count stack nodes = .error (.tooMany limit expression) := by
  obtain ⟨before, last, rfl⟩ : ∃ before last, nodes = before ++ [last] :=
    ⟨_, _, (List.dropLast_concat_getLast hne).symm⟩
  rw [steps?_append, Option.bind_eq_some_iff] at h
  obtain ⟨mid, hmid, -⟩ := h
  rw [List.length_append, List.length_singleton] at hlim
  exact run_append_tooMany last [] before hmid (by omega)

theorem run_eq_error {limit : Int} {expression : Option String} {e : Error} : ∀ {count : Nat}
    {stack : List Formula} (nodes : List Formula),
    run limit expression count stack nodes = .error e →
      e = .tooMany limit expression ∨ ∃ flaw, e = .malformed flaw expression
  | _, _, [], h => by cases h
  | count, stack, node :: nodes, h => by
    rw [run] at h
    split at h
    · cases h
      exact .inl rfl
    · split at h
      · exact run_eq_error nodes h
      · cases h
        exact .inr ⟨_, rfl⟩

end Fold

open Fold

/-- Nodes fold to a formula exactly if they leave it alone on the stack and are fewer than the
limit. -/
theorem fold_eq_ok_iff {nodes : List Formula} {limit : Int} {expression : Option String}
    {f : Formula} :
    fold nodes limit expression = .ok f ↔
      steps? [] nodes = some [f] ∧ (nodes.length : Int) < limit := by
  unfold fold
  split
  · next hnil => subst hnil; simp
  · next hne =>
    have hrun : ∀ stack, run limit expression 0 [] nodes = .ok stack ↔
        steps? [] nodes = some stack ∧ (nodes.length : Int) < limit := by
      intro stack
      rw [run_eq_ok_iff]
      simp [hne]
    rw [← hrun]
    cases run limit expression 0 [] nodes with
    | error e => simp [bind, Except.bind]
    | ok stack =>
      simp only [bind, Except.bind]
      split
      · simp [pure, Except.pure]
      · next hmany =>
        simp only [throw, throwThe, MonadExceptOf.throw, reduceCtorEq, Except.ok.injEq, false_iff]
        exact fun h => hmany f h

theorem fold_tooMany {nodes : List Formula} {limit : Int} {expression : Option String}
    {f : Formula} (h : steps? [] nodes = some [f]) (hlim : limit ≤ nodes.length) :
    fold nodes limit expression = .error (.tooMany limit expression) := by
  have hne : nodes ≠ [] := by
    rintro rfl
    cases h
  have hrun : run limit expression 0 [] nodes = .error (.tooMany limit expression) :=
    run_tooMany hne h (by simpa using hlim)
  rw [fold, if_neg hne, hrun]
  rfl

theorem fold_eq_error {nodes : List Formula} {limit : Int} {expression : Option String}
    {e : Error} (h : fold nodes limit expression = .error e) :
    e = .tooMany limit expression ∨ ∃ flaw, e = .malformed flaw expression := by
  unfold fold at h
  split at h
  · cases h
    exact .inr ⟨_, rfl⟩
  · cases hr : run limit expression 0 [] nodes with
    | error e' =>
      rw [hr] at h
      cases h
      exact run_eq_error nodes hr
    | ok stack =>
      simp only [hr, bind, Except.bind] at h
      split at h
      · cases h
      · cases h
        exact .inr ⟨_, rfl⟩

end FlagLogic
