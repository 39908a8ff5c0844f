import FlagLogic.Diagnostic
import FlagLogic.Value.Json

/-!
Reports for the reader of a terminal: results and failures, as text or as JSON.
-/

namespace FlagLogic

/-- The two forms of a report. -/
inductive Format where
  | text
  | json
  deriving DecidableEq, Repr

/-- The name of a form. -/
def Format.name : Format → String
  | text => "text"
  | json => "json"

namespace Report

/-- A failure as text: the message, each detail on a line of its own, and a suggestion unless it is
empty. -/
def failure (message : String) (details : List String) (suggestion : String) : String :=
  "\n".intercalate (("Error: " ++ message) :: details.map ("  " ++ ·)
    ++ if suggestion = "" then [] else ["Suggestion: " ++ suggestion])

/-- A truth value in lower case. -/
def truth (b : Bool) : String := if b then "true" else "false"

end Report

/-- The parts of a report about an expression, as a record. -/
def Diagnostic.info (d : Diagnostic) : Value :=
  .record [("expression", .text (d.expression?.getD "")), ("message", .text d.message),
    ("position", .int d.position), ("kind", .text d.kind)]

/-- A report about an expression in either form. -/
def Diagnostic.render (d : Diagnostic) : Format → String
  | .json => Json.pretty (.record [("error", d.info)])
  | .text => Report.failure d.message [] ""

end FlagLogic
