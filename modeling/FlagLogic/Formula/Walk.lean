import FlagLogic.Formula
import FlagLogic.Value

/-!
Walks over formulas that keep their work on a list of their own, so that they take constant room for
each formula however deep it is: the canonical text, the record of a formula, and the settings that
it names.
-/

namespace FlagLogic.Formula

/-! ## Canonical text -/

/-- A piece of work for the canonical text: text that is ready, or a formula, `nested` if it is an
operand of a connective. -/
inductive Piece where
  | ready (text : String)
  | part (f : Formula) (nested : Bool)

/-- An upper bound on the work in a piece. -/
def Piece.weight : Piece → Nat
  | ready _ => 1
  | part f _ => 6 * f.size

/-- An upper bound on the work in a list of pieces. -/
def Piece.total : List Piece → Nat
  | [] => 0
  | p :: rest => p.weight + total rest

/-- Writes the pieces one after the other behind `done`. Every connective that is an operand of a
connective is put between parentheses; a missing operand is written as a question mark. -/
def write (done : String) (pieces : List Piece) : String :=
  match pieces with
  | [] => done
  | .ready text :: rest => write (done ++ text) rest
  | .part f nested :: rest =>
    match f with
    | .hole => write (done ++ "?") rest
    | .foreign _ shown => write (done ++ shown) rest
    | .literal b => write (done ++ literalKeyword b) rest
    | .setting name => write (done ++ name) rest
    | .not x => write (done ++ negationKeyword ++ "(") (.part x false :: .ready ")" :: rest)
    | .binary c l r =>
      let inner := [.part l true, .ready (" " ++ c.keyword ++ " "), .part r true]
      if nested then write (done ++ "(") (inner ++ .ready ")" :: rest)
      else write done (inner ++ rest)
termination_by Piece.total pieces
decreasing_by all_goals simp [Piece.total, Piece.weight, size] <;> omega

/-- The canonical text of a formula. -/
def text (f : Formula) : String := write "" [.part f false]

/-! ## Records -/

/-- A piece of work for the record of a formula: a formula, or an operator whose operands' records
are on top of the stack of results. -/
inductive Task where
  | visit (f : Formula)
  | negate
  | join (c : Connective)

/-- An upper bound on the work in a task. -/
def Task.weight : Task → Nat
  | visit f => 2 * f.size
  | _ => 1

/-- An upper bound on the work in a list of tasks. -/
def Task.total : List Task → Nat
  | [] => 0
  | t :: rest => t.weight + total rest

/-- The name of a connective in records. -/
def connectiveName : Connective → String
  | .and => "and"
  | .or => "or"

/-- The record of a negation. -/
def notRecord (operand : Value) : Value :=
  .record [("type", .text "not"), ("operand", operand)]

/-- The record of a connective with its operands. -/
def binaryRecord (c : Connective) (left right : Value) : Value :=
  .record [("type", .text (connectiveName c)), ("left", left), ("right", right)]

/-- The record of a formula without operands. -/
def leafRecord : Formula → Value
  | literal b => .record [("type", .text "literal"), ("value", .bool b)]
  | setting name => .record [("type", .text "setting"), ("name", .text name)]
  | foreign kind shown => .record [("type", .text "foreign"), ("kind", .text kind),
      ("shown", .text shown)]
  | _ => .null

/-- Works through the tasks; the results so far, the latest first, are on the stack. -/
def collect (results : List Value) (tasks : List Task) : Value :=
  match tasks with
  | [] => results.headD .null
  | .negate :: rest =>
    match results with
    | x :: results => collect (notRecord x :: results) rest
    | [] => .null
  | .join c :: rest =>
    match results with
    | r :: l :: results => collect (binaryRecord c l r :: results) rest
    | _ => .null
  | .visit f :: rest =>
    match f with
    | .not x => collect results (.visit x :: .negate :: rest)
    | .binary c l r => collect results (.visit l :: .visit r :: .join c :: rest)
    | .literal b => collect (leafRecord (.literal b) :: results) rest
    | .setting name => collect (leafRecord (.setting name) :: results) rest
    | .hole => collect (leafRecord .hole :: results) rest
    | .foreign kind shown => collect (leafRecord (.foreign kind shown) :: results) rest
termination_by Task.total tasks
decreasing_by
  all_goals simp only [Task.total, Task.weight, size]
  all_goals omega

/-- A formula as nested records; a missing operand is null. -/
def toValue (f : Formula) : Value := collect [] [.visit f]

/-! ## Settings -/

/-- An upper bound on the work in a list of formulas. -/
def pending : List Formula → Nat
  | [] => 0
  | f :: rest => f.size + pending rest

/-- Adds the settings of the formulas to those seen so far, from left to right, each name once. -/
def gather (seen : List String) (fs : List Formula) : List String :=
  match fs with
  | [] => seen
  | f :: rest =>
    match f with
    | .setting name => gather (if name ∈ seen then seen else seen ++ [name]) rest
    | .not x => gather seen (x :: rest)
    | .binary _ l r => gather seen (l :: r :: rest)
    | .literal _ | .hole | .foreign .. => gather seen rest
termination_by pending fs
decreasing_by
  all_goals simp only [pending, size]
  all_goals omega

/-- The settings that a formula names, in the order of their first appearance. -/
def settings (f : Formula) : List String := gather [] [f]

end FlagLogic.Formula
