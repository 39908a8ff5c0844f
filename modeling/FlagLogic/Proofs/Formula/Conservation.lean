import FlagLogic.Proofs.Formula.Arrangement

/-!
Nothing is lost in fold order. Each lexeme but the parentheses stands for one node. Main statement:
fold order is a permutation of these nodes, whatever tokens are put into it and wherever their groups
end, and the leaves among them keep their order (`foldOrder_perm`).
-/

namespace FlagLogic

open FoldOrder

/-- The node that a lexeme stands for, an operator without its operands. -/
def Lexeme.node? : Lexeme → Option Formula
  | .name s => some (.setting s)
  | .literal b _ => some (.literal b)
  | .connective c => some (.binary c .hole .hole)
  | .negation => some (.not .hole)
  | .opening | .closing | .unknown _ => none

/-- The nodes that lexemes stand for, in the order of the lexemes. -/
def nodesOf (ls : List Lexeme) : List Formula := ls.filterMap Lexeme.node?

/-- The formula has no operator. -/
def Formula.isLeaf (f : Formula) : Bool := f.arity = 0

@[simp] theorem nodesOf_nil : nodesOf [] = [] := rfl

@[simp] theorem nodesOf_append (xs ys : List Lexeme) :
    nodesOf (xs ++ ys) = nodesOf xs ++ nodesOf ys := List.filterMap_append

@[simp] theorem nodesOf_connective (c : Connective) (ls : List Lexeme) :
    nodesOf (.connective c :: ls) = .binary c .hole .hole :: nodesOf ls := rfl

@[simp] theorem nodesOf_negation (ls : List Lexeme) :
    nodesOf (.negation :: ls) = .not .hole :: nodesOf ls := rfl

@[simp] theorem nodesOf_opening (ls : List Lexeme) : nodesOf (.opening :: ls) = nodesOf ls := rfl

@[simp] theorem nodesOf_closing (ls : List Lexeme) : nodesOf (.closing :: ls) = nodesOf ls := rfl

theorem nodesOf_leaf {x : Lexeme} {f : Formula} (h : x.leaf? = some f) (ls : List Lexeme) :
    nodesOf (x :: ls) = f :: nodesOf ls := by
  cases x <;> cases h <;> rfl

theorem isLeaf_of_leaf? {x : Lexeme} {f : Formula} (h : x.leaf? = some f) : f.isLeaf := by
  simp [Formula.isLeaf, Lexeme.arity_of_leaf? h]

theorem filter_isLeaf_waiting (p : Option Connective) :
    (waiting p).filter Formula.isLeaf = [] := by
  cases p <;> rfl

/-- A connective that waits is put behind the operand that it waits for. -/
theorem perm_waiting (p : Option Connective) {operand operand' rest rest' : List Formula}
    (ho : operand.Perm operand') (hr : rest.Perm rest') :
    (operand ++ waiting p ++ rest).Perm (waiting p ++ (operand' ++ rest')) := by
  have hmoved : (operand ++ waiting p).Perm (waiting p ++ operand') :=
    List.perm_append_comm.trans (ho.append_left (waiting p))
  have hall := hmoved.append hr
  rwa [List.append_assoc (waiting p)] at hall

/-- The fold order of lexemes has their nodes, and the connective that waited before them. -/
theorem Arranged.perm {p : Option Connective} {ls : List Lexeme} {nodes : List Formula}
    (h : Arranged p ls nodes) : nodes.Perm (waiting p ++ nodesOf ls) := by
  induction h with
  | nil p => simp
  | connective _ ih => simpa [waiting] using ih
  | @leaf p x f ls nodes hx _ ih =>
    rw [nodesOf_leaf hx]
    exact perm_waiting p (.refl [f]) ih
  | @group p body ls inner outer _ _ ihb ihl =>
    have hnodes : nodesOf (.opening :: body ++ .closing :: ls) = nodesOf body ++ nodesOf ls := by
      simp
    rw [hnodes]
    exact perm_waiting p ihb ihl
  | @negation p body ls inner outer _ _ ihb ihl =>
    have hnodes : nodesOf (.negation :: .opening :: body ++ .closing :: ls)
        = .not .hole :: nodesOf body ++ nodesOf ls := by
      simp
    have hinner : (inner ++ [Formula.not .hole]).Perm (.not .hole :: nodesOf body) :=
      List.perm_append_comm.trans (ihb.cons _)
    have hall := perm_waiting p hinner ihl
    rw [hnodes]
    simpa [waiting] using hall

/-- The leaves keep their order. -/
theorem Arranged.filter_isLeaf {p : Option Connective} {ls : List Lexeme} {nodes : List Formula}
    (h : Arranged p ls nodes) : nodes.filter Formula.isLeaf = (nodesOf ls).filter Formula.isLeaf := by
  induction h with
  | nil p => exact filter_isLeaf_waiting p
  | connective _ ih => exact ih
  | leaf hx _ ih =>
    rw [nodesOf_leaf hx]
    simp [isLeaf_of_leaf? hx, filter_isLeaf_waiting, ih]
  | group _ _ ihb ihl => simp [filter_isLeaf_waiting, ihb, ihl]
  | negation _ _ ihb ihl =>
    have hnot : (Formula.not .hole).isLeaf = false := rfl
    simp [filter_isLeaf_waiting, ihb, ihl, hnot]

/-- Each lexeme that has a fold order is a node or a parenthesis. -/
theorem Arranged.isSome_node? {p : Option Connective} {ls : List Lexeme} {nodes : List Formula}
    (h : Arranged p ls nodes) : ∀ x ∈ ls, x.node?.isSome ∨ x = .opening ∨ x = .closing := by
  induction h with
  | nil => simp
  | connective _ ih => simpa [Lexeme.node?] using ih
  | @leaf p x f ls nodes hx _ ih =>
    refine List.forall_mem_cons.mpr ⟨?_, ih⟩
    cases x <;> first | exact .inl rfl | cases hx
  | group _ _ ihb ihl => simpa [or_imp, forall_and, Lexeme.node?] using And.intro ihb ihl
  | negation _ _ ihb ihl => simpa [or_imp, forall_and, Lexeme.node?] using And.intro ihb ihl

/-- **Nothing is lost and nothing is doubled.** Whatever tokens are put into fold order, each of them
is a parenthesis or stands for a node, fold order is a permutation of these nodes, and the leaves
among them stay in the order of the tokens. -/
theorem foldOrder_perm {ts : List Token} {maxDepth : Int} {source : String} {nodes : List Formula}
    (h : foldOrder ts maxDepth source = .ok nodes) :
    (∀ t ∈ ts, t.lexeme.node?.isSome ∨ t.lexeme = .opening ∨ t.lexeme = .closing)
    ∧ nodes.Perm (nodesOf (lexemes ts))
    ∧ nodes.filter Formula.isLeaf = (nodesOf (lexemes ts)).filter Formula.isLeaf := by
  obtain ⟨harr, -⟩ := foldOrder_eq_ok_iff.mp h
  refine ⟨?_, harr.perm, harr.filter_isLeaf⟩
  intro t ht
  exact harr.isSome_node? t.lexeme (List.mem_map_of_mem ht)

/-- Tokens made by hand: a connective waits for a negated group that ends in another one, and a third
one has no right operand. -/
theorem foldOrder_perm_at_dangling :
    foldOrder [⟨.name "a", 0⟩, ⟨.connective .and, 0⟩, ⟨.negation, 0⟩, ⟨.opening, 0⟩, ⟨.name "b", 0⟩,
        ⟨.connective .or, 0⟩, ⟨.closing, 0⟩, ⟨.connective .or, 0⟩] 1 ""
      = .ok [.setting "a", .setting "b", .binary .or .hole .hole, .not .hole,
        .binary .and .hole .hole, .binary .or .hole .hole]
    ∧ [.setting "a", .setting "b", .binary .or .hole .hole, .not .hole, .binary .and .hole .hole,
        .binary .or .hole .hole].Perm
      [.setting "a", .binary .and .hole .hole, .not .hole, .setting "b", .binary .or .hole .hole,
        Formula.binary .or .hole .hole] := by
  have hgroup : Arranged none [.name "b", .connective .or]
      [.setting "b", .binary .or .hole .hole] :=
    .leaf rfl (.connective (.nil (some .or)))
  have hrest : Arranged none [.connective .or] [.binary .or .hole .hole] :=
    .connective (.nil (some .or))
  have harr := Arranged.leaf (p := none) (x := .name "a") rfl
    (Arranged.connective (c := .and) (Arranged.negation hgroup hrest))
  have hok : foldOrder [⟨.name "a", 0⟩, ⟨.connective .and, 0⟩, ⟨.negation, 0⟩, ⟨.opening, 0⟩,
      ⟨.name "b", 0⟩, ⟨.connective .or, 0⟩, ⟨.closing, 0⟩, ⟨.connective .or, 0⟩] 1 "" = .ok _ :=
    foldOrder_eq_ok_iff.mpr ⟨harr, by decide⟩
  exact ⟨hok, (foldOrder_perm hok).2.1⟩

end FlagLogic
