import FlagLogic.Token

/-!
Formulas. A formula is a truth value, a setting, a negation or a binary connective; operands may be
missing, which is how operators stand in a sequence before it is folded. Each view of a formula is
defined here by recursion on its structure.
-/

namespace FlagLogic

/-- A flag formula. `hole` stands for an operand that is missing, `foreign` for a value of another
kind in the place of a formula, known by its kind and the text that shows it. -/
inductive Formula where
  | literal (value : Bool)
  | setting (name : String)
  | not (operand : Formula)
  | binary (c : Connective) (left right : Formula)
  | hole
  | foreign (kind shown : String)
  deriving DecidableEq, Repr

namespace Formula

/-- The number of operands that the formula's operator takes. -/
def arity : Formula → Nat
  | not _ => 1
  | binary .. => 2
  | _ => 0

/-- The keyword of the formula's operator. -/
def keyword : Formula → String
  | not _ => negationKeyword
  | binary c _ _ => c.keyword
  | _ => ""

/-- The number of nodes of a formula, holes included. -/
def size : Formula → Nat
  | not operand => operand.size + 1
  | binary _ left right => left.size + right.size + 1
  | _ => 1

/-- The operator alone, with holes for its operands; a leaf as it is. -/
def bare : Formula → Formula
  | not _ => not hole
  | binary c _ _ => binary c hole hole
  | leaf => leaf

/-- The formula is a binary connective. -/
def isBinary : Formula → Bool
  | binary .. => true
  | _ => false

/-- The names of the setting leaves from left to right, with repeats. -/
def leaves : Formula → List String
  | setting name => [name]
  | not operand => operand.leaves
  | binary _ left right => left.leaves ++ right.leaves
  | _ => []

end Formula

end FlagLogic
