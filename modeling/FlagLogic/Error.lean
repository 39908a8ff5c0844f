import FlagLogic.Token

/-!
What can go wrong with an expression, by cause. Faults of the text carry the text and the offset
they are reported at; faults of evaluation carry the canonical text of the formula.
-/

namespace FlagLogic

/-- Why a text is not an expression. -/
inductive Fault where
  /-- Text stands in front of `NOT(` in the same piece. -/
  | textBeforeNot (text : String)
  /-- Two connectives follow one another. -/
  | operandBetween (first second : Connective)
  /-- A negation without its opening parenthesis. -/
  | openingAfterNot
  /-- A group that is never closed. -/
  | unclosed
  /-- A closing parenthesis without an opening one. -/
  | unexpectedClosing
  /-- A token of a kind that no expression text has. -/
  | unknownToken (kind : String)
  /-- There is no operand at all. -/
  | empty
  /-- The text ends in a connective. -/
  | operandAfter (c : Connective)
  /-- An operator has too few operands; its keyword is given. -/
  | operandFor (keyword : String)
  /-- Two operands without a connective between them. -/
  | adjacent
  deriving DecidableEq, Repr

/-- Why a sequence in fold order is not one formula. -/
inductive Flaw where
  | empty
  /-- The operator with this keyword has too few operands before it. -/
  | missingOperand (keyword : String)
  /-- More than one formula remains; their canonical texts are given. -/
  | manyRoots (roots : List String)
  deriving DecidableEq, Repr

/-- What can go wrong with an expression. -/
inductive Error where
  /-- The text is not an expression; the fault is reported at an offset. -/
  | grammar (fault : Fault) (expression : String) (position : Nat)
  /-- The sequence in fold order is not one formula. -/
  | malformed (flaw : Flaw) (expression : Option String)
  /-- Parentheses are nested deeper than the limit. -/
  | tooDeep (limit : Int) (expression : String)
  /-- The sequence in fold order reaches the limit on its length. -/
  | tooMany (limit : Int) (expression : Option String)
  /-- The operator with this keyword lacks an operand. -/
  | incomplete (keyword : String) (expression : String)
  /-- A value of another kind stands where a formula is expected. -/
  | foreign (kind : String) (shown : String)
  /-- The environment has no value for a setting; `known` are the names that it has. -/
  | undefined (setting : String) (expression : String) (known : List String)
  /-- The host declines to answer for a setting. -/
  | refused (setting : String)
  deriving DecidableEq, Repr

end FlagLogic
