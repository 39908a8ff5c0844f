import FlagLogic.Proofs.Formula.Folding
import FlagLogic.Proofs.Formula.Whole

/-!
Flattening. The nodes of a formula in postorder are its leaves and its operators, each operator alone
and behind its operands. Main statements: folded onto any stack, they leave the formula on top of it
(`steps?_postorder`); folding keeps the postorder of all that is on the stack, and adds the node that
it folds (`postorder_steps?`), so that folding and flattening are inverse (`fold_postorder`).
-/

namespace FlagLogic

namespace Formula

/-- The nodes of a formula, operands before their operator, and operators without operands. -/
def postorder : Formula → List Formula
  | not x => x.postorder ++ [not hole]
  | binary c l r => l.postorder ++ r.postorder ++ [binary c hole hole]
  | leaf => [leaf]

/-- The formula is a node that formulas are put together from, whatever operands it has. -/
def isNode : Formula → Bool
  | hole | foreign .. => false
  | _ => true

theorem length_postorder (f : Formula) : f.postorder.length = f.size := by
  induction f with
  | not x ih => rw [postorder, List.length_append, ih]; rfl
  | binary c l r ihl ihr => rw [postorder, List.length_append, List.length_append, ihl, ihr]; rfl
  | _ => rfl

/-- A formula is whole exactly if its postorder has nodes only. -/
theorem whole_iff_postorder (f : Formula) : f.Whole ↔ ∀ n ∈ f.postorder, n.isNode := by
  induction f with
  | not x ih => simp [postorder, Whole, isNode, ih, or_imp, forall_and]
  | binary c l r ihl ihr => simp [postorder, Whole, isNode, ihl, ihr, or_imp, forall_and]
  | _ => simp [postorder, Whole, isNode]

@[simp] theorem isNode_bare (f : Formula) : f.bare.isNode = f.isNode := by
  cases f <;> rfl

@[simp] theorem arity_bare (f : Formula) : f.bare.arity = f.arity := by
  cases f <;> rfl

theorem bare_of_arity {f : Formula} (h : f.arity = 0) : f.bare = f := by
  cases f <;> first | rfl | cases h

theorem postorder_of_arity {f : Formula} (h : f.arity = 0) : f.postorder = [f] := by
  cases f <;> first | rfl | cases h

/-- Operators in postorder have no operands. -/
theorem map_bare_postorder (f : Formula) : f.postorder.map bare = f.postorder := by
  induction f with
  | not x ih => simp [postorder, bare, ih]
  | binary c l r ihl ihr => simp [postorder, bare, ihl, ihr]
  | _ => rfl

end Formula

namespace Fold

open Formula

/-- The operands that a node had before do not matter. -/
theorem step?_bare (stack : List Formula) (node : Formula) :
    step? stack node.bare = step? stack node := by
  cases node with
  | not x => cases stack <;> rfl
  | binary c l r =>
    match stack with
    | [] | [_] | _ :: _ :: _ => rfl
  | _ => rfl

theorem steps?_map_bare (stack nodes : List Formula) :
    steps? stack (nodes.map bare) = steps? stack nodes := by
  induction nodes generalizing stack with
  | nil => rfl
  | cons node nodes ih => simp only [List.map_cons, steps?_cons, step?_bare, ih]

/-- The nodes of a formula put it onto any stack. -/
theorem steps?_postorder (stack : List Formula) (f : Formula) :
    steps? stack f.postorder = some (f :: stack) := by
  induction f generalizing stack with
  | not x ih =>
    rw [postorder, steps?_append, ih]
    rfl
  | binary c l r ihl ihr =>
    rw [postorder, steps?_append, steps?_append, ihl, Option.bind_some, ihr]
    rfl
  | _ => rfl

/-- The nodes of all formulas on a stack, from its bottom to its top. -/
def flat (stack : List Formula) : List Formula := stack.reverse.flatMap postorder

@[simp] theorem flat_cons (f : Formula) (stack : List Formula) :
    flat (f :: stack) = flat stack ++ f.postorder := by
  simp [flat]

/-- A step adds its node to those on the stack, without the operands that it had before. -/
theorem Step.flat {stack stack' : List Formula} {node : Formula} (h : Step stack node stack') :
    flat stack' = flat stack ++ [node.bare] := by
  cases h with
  | leaf ha => rw [flat_cons, postorder_of_arity ha, bare_of_arity ha]
  | not old x rest => simp [postorder, bare]
  | binary c oldLeft oldRight left right rest => simp [postorder, bare]

/-- Folding adds the nodes that it folds to those on the stack, in their order. -/
theorem postorder_steps? : ∀ {stack stack' : List Formula} (nodes : List Formula),
    steps? stack nodes = some stack' → flat stack' = flat stack ++ nodes.map bare
  | _, _, [], h => by
    cases h
    rw [List.map_nil, List.append_nil]
  | stack, stack', node :: nodes, h => by
    obtain ⟨mid, hstep, hrest⟩ := steps?_cons_eq_some_iff.mp h
    rw [postorder_steps? nodes hrest, hstep.flat, List.map_cons, List.append_assoc,
      List.singleton_append]

/-- Nodes leave a formula alone on the stack exactly if they are its postorder. -/
theorem steps?_eq_singleton_iff {nodes : List Formula} {f : Formula} :
    steps? [] nodes = some [f] ↔ f.postorder = nodes.map bare := by
  constructor
  · intro h
    have := postorder_steps? nodes h
    rwa [flat_cons] at this
  · intro h
    rw [← steps?_map_bare, ← h, steps?_postorder]

end Fold

open Formula Fold

/-- **Folding and flattening are inverse.** The nodes of a whole formula in postorder fold to it, if
they are fewer than the limit; and nodes fold to a formula only if it is whole and they are its nodes
in postorder, up to the operands that operators had before. -/
theorem fold_postorder (limit : Int) (expression : Option String) :
    (∀ f : Formula, f.Whole → (f.size : Int) < limit → fold f.postorder limit expression = .ok f)
    ∧ ∀ (nodes : List Formula) (f : Formula), (∀ n ∈ nodes, n.isNode) →
      (fold nodes limit expression = .ok f ↔
        f.Whole ∧ f.postorder = nodes.map bare ∧ (f.size : Int) < limit) := by
  have hfold : ∀ nodes f, fold nodes limit expression = .ok f ↔
      f.postorder = nodes.map bare ∧ (f.size : Int) < limit := by
    intro nodes f
    rw [fold_eq_ok_iff, steps?_eq_singleton_iff]
    refine and_congr_right fun h => ?_
    rw [← length_postorder, h, List.length_map]
  refine ⟨fun f _ hsize => ?_, fun nodes f hnodes => ?_⟩
  · exact (hfold _ f).mpr ⟨(map_bare_postorder f).symm, hsize⟩
  · rw [hfold]
    refine ⟨fun ⟨hpost, hsize⟩ => ⟨?_, hpost, hsize⟩, fun h => h.2⟩
    rw [whole_iff_postorder, hpost]
    intro n hn
    obtain ⟨node, hnode, rfl⟩ := List.mem_map.mp hn
    rw [isNode_bare]
    exact hnodes node hnode

/-- Operands that the operators had before are dropped, and the topmost formula is the right one. -/
theorem fold_postorder_at_stale :
    fold [.setting "a", .literal true, .not (.setting "b"), .binary .or (.setting "b") .hole] 5 none
      = .ok (.binary .or (.setting "a") (.not (.literal true)))
    ∧ fold [.setting "a", .literal true, .not .hole, .binary .or .hole .hole] 5 none
      = .ok (.binary .or (.setting "a") (.not (.literal true))) := by
  obtain ⟨hfold, hiff⟩ := fold_postorder 5 none
  constructor
  · exact (hiff _ _ (by decide)).mpr ⟨by decide, rfl, by decide⟩
  · exact hfold (.binary .or (.setting "a") (.not (.literal true))) (by decide) (by decide)

end FlagLogic
