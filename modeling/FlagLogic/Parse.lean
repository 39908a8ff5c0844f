import FlagLogic.Formula.Fold
import FlagLogic.Formula.FoldOrder
import FlagLogic.Token.Lexer
import FlagLogic.Trace

/-!
From text to formula: the text is cut into tokens, the tokens are put into fold order, and the
sequence is folded. A sequence that does not fold came from the text, so it is reported as a fault
of the text.
-/

namespace FlagLogic

/-- The bounds on expressions: folding refuses sequences of `operations` nodes or more, and groups
may be nested `depth` deep. -/
structure Limits where
  operations : Int := 1000
  depth : Int := 64
  deriving DecidableEq, Repr

/-- The fault of a text whose tokens do not fold, and its offset. A missing operand is blamed on the
connective that ends the text, if one does. -/
def Flaw.fault (tokens : List Token) : Flaw → Fault × Nat
  | .empty => (.empty, 0)
  | .manyRoots _ => (.adjacent, 0)
  | .missingOperand keyword =>
    match tokens.getLast? with
    | some ⟨.connective c, position⟩ => (.operandAfter c, position)
    | _ => (.operandFor keyword, 0)

/-- The error of a text that could not be folded. -/
def Error.ofText (tokens : List Token) (text : String) : Error → Error
  | .malformed flaw _ =>
    let (fault, position) := flaw.fault tokens
    .grammar fault text position
  | e => e

/-! ## The stages, announced -/

namespace Traced

/-- `tokenize`, announcing the number of tokens. -/
def tokenize (text : String) : Traced Error (List Token) := do
  let tokens ← FlagLogic.tokenize text
  emit (.tokenized text tokens.length)
  return tokens

/-- `foldOrder`, announcing the number of nodes. -/
def foldOrder (tokens : List Token) (maxDepth : Int) (source : String) :
    Traced Error (List Formula) := do
  let nodes ← FlagLogic.foldOrder tokens maxDepth source
  emit (.sequenced source nodes.length)
  return nodes

/-- `fold`, announcing the number of nodes. -/
def fold (nodes : List Formula) (limit : Int) (expression : Option String) :
    Traced Error Formula := do
  let f ← FlagLogic.fold nodes limit expression
  emit (.folded expression nodes.length)
  return f

/-- Parses a text, announcing each stage that succeeds. -/
def parse (limits : Limits) (text : String) : Traced Error Formula := do
  let tokens ← tokenize text
  let nodes ← foldOrder tokens limits.depth text
  let f ← tryCatch (fold nodes limits.operations (some text)) fun e => throw (e.ofText tokens text)
  emit (.parsed text nodes.length)
  return f

end Traced

/-- Parses a text. -/
def parse (limits : Limits) (text : String) : Except Error Formula :=
  (Traced.parse limits text).outcome

end FlagLogic
