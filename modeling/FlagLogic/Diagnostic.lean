import FlagLogic.Error
import FlagLogic.Text.Quoted

/-!
Diagnostics: errors in words. A diagnostic says what is wrong with an expression in a sentence of its
own; its message puts that sentence together with the expression and, for a positioned fault, a caret
under the place that it is about.
-/

namespace FlagLogic

/-- A report about an expression. -/
inductive Diagnostic where
  /-- Anything else about an expression. -/
  | general (summary : String) (expression : Option String)
  /-- A text is not an expression. -/
  | grammar (summary : String) (expression : String) (position : Int)
  /-- A sequence does not fold; `reason` classifies why. -/
  | sequence (summary : String) (reason : String) (expression : Option String)
  /-- A limit is reached. -/
  | limit (summary : String) (limit : Int) (expression : Option String)
  /-- A formula cannot be evaluated. -/
  | evaluation (summary : String) (expression : String) (known : List String)
  /-- A setting has no value. -/
  | undefined (setting : String) (expression : String) (known : List String)
  deriving DecidableEq, Repr

namespace Diagnostic

/-- The name of the report's kind. -/
def kind : Diagnostic → String
  | general .. => "ExpressionError"
  | grammar .. => "ExpressionSyntaxError"
  | sequence .. => "MalformedSequenceError"
  | limit .. => "ExpressionLimitError"
  | evaluation .. => "ExpressionEvaluationError"
  | undefined .. => "UndefinedSettingError"

/-- The expression that the report is about. -/
def expression? : Diagnostic → Option String
  | general _ e | sequence _ _ e | limit _ _ e => e
  | grammar _ e _ | evaluation _ e _ | undefined _ e _ => some e

/-- The offset that the report is about, zero if it has none. -/
def position : Diagnostic → Int
  | grammar _ _ p => p
  | _ => 0

/-- A summary with the expression below it and a caret at the position, or beside it where there is
no position to show. -/
def located (summary expression : String) (position : Int) : String :=
  if position > 0 ∧ expression ≠ "" then
    summary ++ " at position " ++ toString position ++ ":\n" ++ expression ++ "\n"
      ++ String.ofList (List.replicate position.toNat ' ') ++ "^"
  else summary ++ ": " ++ expression

/-- Names in alphabetical order of their characters. -/
def sorted (names : List String) : List String := names.mergeSort fun a b => !(b < a)

/-- A summary with its expression and the names that the environment holds. -/
def inContext (summary expression : String) (known : List String) : String :=
  summary ++ " in expression: " ++ expression
    ++ if known = [] then "" else "\nAvailable settings: " ++ ", ".intercalate (sorted known)

/-- The report in words. -/
def message : Diagnostic → String
  | general summary _ | sequence summary _ _ | limit summary _ _ => summary
  | grammar summary expression position => located summary expression position
  | evaluation summary expression known => inContext summary expression known
  | undefined setting expression known =>
    inContext ("Setting '" ++ setting ++ "' is not defined") expression known

end Diagnostic

/-! ## Errors in words -/

/-- The summary of a fault. -/
def Fault.summary : Fault → String
  | textBeforeNot text => "Unexpected '" ++ text ++ "' before NOT("
  | operandBetween a b => "Missing operand between " ++ a.keyword ++ " and " ++ b.keyword
  | openingAfterNot => "Expected ( after NOT"
  | unclosed => "Expected closing parenthesis"
  | unexpectedClosing => "Unexpected token )"
  | unknownToken kind => "Unknown token " ++ Text.quoted kind
  | empty => "Empty expression"
  | operandAfter c => "Missing operand after " ++ c.keyword
  | operandFor keyword => "Missing operand for " ++ keyword
  | adjacent => "Missing AND/OR between expressions"

/-- The summary of a flaw. -/
def Flaw.summary : Flaw → String
  | empty => "Empty expression"
  | missingOperand keyword => "Missing operand for " ++ keyword
  | manyRoots roots =>
    "Expected a single expression but found " ++ toString roots.length ++ ": "
      ++ ", ".intercalate roots

/-- The classification of a flaw. -/
def Flaw.reason : Flaw → String
  | empty => "empty"
  | missingOperand _ => "missing_operand"
  | manyRoots _ => "multiple_roots"

/-- The report of an error. The words for a host that declines to answer are its own; here, they are
the name of the setting. -/
def Error.diagnostic : Error → Diagnostic
  | grammar fault expression position => .grammar fault.summary expression position
  | malformed flaw expression => .sequence flaw.summary flaw.reason expression
  | tooDeep limit expression =>
    .limit ("Parentheses nested deeper than " ++ toString limit ++ " levels") limit
      (some expression)
  | tooMany limit expression =>
    .limit ("Operation limit of " ++ toString limit ++ " reached, too many operations") limit
      expression
  | incomplete keyword expression =>
    .evaluation ("Incomplete " ++ keyword ++ " node") expression []
  | foreign kind shown => .evaluation ("Unknown node type " ++ kind) shown []
  | undefined setting expression known => .undefined setting expression known
  | refused setting => .general setting none

/-- The report of an error in words. -/
def Error.message (e : Error) : String := e.diagnostic.message

end FlagLogic
