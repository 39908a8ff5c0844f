import FlagLogic.Error
import FlagLogic.Formula.Walk

/-!
Folding a sequence of nodes into one formula. Each node takes as many operands from the stack as its
operator has, the topmost as its last operand, and is put back with them; what remains in the end is
the formula. Operands that the nodes had before are dropped.
-/

namespace FlagLogic.Fold

/-- The node with its operands taken from the stack, topmost first; none if there are too few. -/
def step? (stack : List Formula) (node : Formula) : Option (List Formula) :=
  match node, stack with
  | .not _, x :: rest => some (.not x :: rest)
  | .not _, _ => none
  | .binary c _ _, right :: left :: rest => some (.binary c left right :: rest)
  | .binary .., _ => none
  | leaf, stack => some (leaf :: stack)

/-- Folds nodes onto a stack after `count` nodes have been folded. The node that reaches the limit
is refused before its operands are looked at. -/
def run (limit : Int) (expression : Option String) (count : Nat) (stack : List Formula) :
    List Formula → Except Error (List Formula)
  | [] => .ok stack
  | node :: rest =>
    if limit ≤ count + 1 then .error (.tooMany limit expression)
    else
      match step? stack node with
      | some stack => run limit expression (count + 1) stack rest
      | none => .error (.malformed (.missingOperand node.keyword) expression)

end FlagLogic.Fold

namespace FlagLogic

/-- Folds nodes into one formula. A sequence of `limit` nodes or more is refused. -/
def fold (nodes : List Formula) (limit : Int) (expression : Option String) :
    Except Error Formula :=
  if nodes = [] then .error (.malformed .empty expression)
  else do
    match ← Fold.run limit expression 0 [] nodes with
    | [root] => return root
    | stack => throw (.malformed (.manyRoots (stack.reverse.map Formula.text)) expression)

end FlagLogic
