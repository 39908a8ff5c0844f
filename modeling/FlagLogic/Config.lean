import FlagLogic.Eval.Environment
import FlagLogic.Parse

/-!
The configuration: the bounds on expressions, the policy for missing settings, the values of
settings, and how much is said in the log.
-/

namespace FlagLogic

/-- How much is said in the log. -/
inductive Verbosity where
  | error
  | warning
  | info
  | debug
  deriving DecidableEq, Repr

namespace Verbosity

/-- The name of a verbosity. -/
def name : Verbosity → String
  | error => "error"
  | warning => "warning"
  | info => "info"
  | debug => "debug"

/-- The verbosity of this name. -/
def ofName? (name : String) : Option Verbosity :=
  [error, warning, info, debug].find? (·.name == name)

/-- The least severe level that is still shown. -/
def level : Verbosity → Level
  | error => .error
  | warning => .warning
  | info => .info
  | debug => .debug

end Verbosity

/-- A configuration; each part has a default. Settings are listed in order, each name once. -/
structure Config where
  limits : Limits := {}
  missing : Missing := .lenient
  settings : List (String × Bool) := []
  verbosity : Verbosity := .warning
  deriving DecidableEq, Repr

namespace Config

/-- The configuration as the entries of a map. -/
def entries (c : Config) : List (Value × Value) := [
  (.text "parser", .record [
    ("operation_limit", .int c.limits.operations), ("max_depth", .int c.limits.depth)]),
  (.text "evaluation", .record [("missing_setting", .text c.missing.name)]),
  (.text "settings", .record (c.settings.map fun (name, b) => (name, .bool b))),
  (.text "verbosity", .text c.verbosity.name)]

/-- The configuration as data. -/
def toValue (c : Config) : Value := .map c.entries

/-- The values of settings as an environment. -/
def environment (c : Config) : Environment :=
  .mapping (c.settings.map fun (name, b) => (.name name, b))

end Config

end FlagLogic
