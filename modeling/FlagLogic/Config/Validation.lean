import FlagLogic.Config.Coercion

/-!
From data to a configuration. Every part of the data is looked at, and all that does not fit is
listed, in the order of the parts. Unknown keys do not count.
-/

namespace FlagLogic

/-- A value that does not fit: where it stands, why it does not fit, and the value. -/
structure Problem where
  place : List Value
  misfit : Misfit
  value : Value
  deriving DecidableEq

/-- The place of a problem as a path of keys. -/
def Problem.field (p : Problem) : String := ".".intercalate (p.place.map Value.plain)

/-- One problem or more. -/
structure Problems where
  first : Problem
  rest : List Problem
  deriving DecidableEq

namespace Problems

/-- The problems in order. -/
def toList (p : Problems) : List Problem := p.first :: p.rest

/-- The problems of both, in order. -/
def append (p q : Problems) : Problems := ⟨p.first, p.rest ++ q.toList⟩

@[simp] theorem toList_append (p q : Problems) : (p.append q).toList = p.toList ++ q.toList := rfl

end Problems

/-- A result, or all the problems that stand in its way. -/
abbrev Checked (α : Type) := Except Problems α

namespace Checked

/-- One problem. -/
def problem {α : Type} (place : List Value) (misfit : Misfit) (value : Value) : Checked α :=
  .error ⟨⟨place, misfit, value⟩, []⟩

/-- Both results, or the problems of both, those of the first one first. -/
def both {α β : Type} (a : Checked α) (b : Checked β) : Checked (α × β) :=
  match a, b with
  | .ok a, .ok b => .ok (a, b)
  | .ok _, .error q => .error q
  | .error p, .ok _ => .error p
  | .error p, .error q => .error (p.append q)

/-- All the results, or the problems of all. -/
def all {α : Type} : List (Checked α) → Checked (List α)
  | [] => .ok []
  | a :: rest => (both a (all rest)).map fun (a, rest) => a :: rest

end Checked

namespace Config

/-- The value under a key read by `read`, or a default if the key is not there. -/
def field {α : Type} (entries : List (Value × Value)) (key : String) (default : α)
    (read : Value → Checked α) : Checked α :=
  match Value.find? entries (.text key) with
  | some v => read v
  | none => .ok default

/-- A value at a place, read by `read`. -/
def fit {α : Type} (place : List Value) (read : Value → Except Misfit α) (v : Value) : Checked α :=
  match read v with
  | .ok a => .ok a
  | .error misfit => .problem place misfit v

/-- The bounds on expressions. -/
def limitsOf (v : Value) : Checked Limits :=
  let default : Limits := {}
  match v with
  | .map entries =>
    let part (key : String) (default low high : Int) :=
      field entries key default (fit [.text "parser", .text key] (Coercion.bounded low high))
    (Checked.both (part "operation_limit" default.operations 2 1000)
      (part "max_depth" default.depth 1 500)).map fun (operations, depth) => ⟨operations, depth⟩
  | v => .problem [.text "parser"] (.notPart "ParserConfig") v

/-- The policy for missing settings. -/
def missingOf (v : Value) : Checked Missing :=
  match v with
  | .map entries =>
    field entries "missing_setting" .lenient
      (fit [.text "evaluation", .text "missing_setting"] Coercion.policy)
  | v => .problem [.text "evaluation"] (.notPart "EvaluationConfig") v

/-- How a key is named in the place of a problem: texts and integers by themselves, truth values as
integers, anything else as it is shown. -/
def placeOf : Value → Value
  | .text s => .text s
  | .bool b => .int (if b then 1 else 0)
  | .int i =>
    if -Coercion.wordLimit ≤ i ∧ i < Coercion.wordLimit then .int i else .text (toString i)
  | v => .text v.shown

/-- The name that a key is. -/
def nameOf (key : Value) : Checked String :=
  match key with
  | .text name => .ok name
  | key => .problem [.text "settings", placeOf key, .text "[key]"] .notText key

/-- The values of settings. -/
def settingsOf (v : Value) : Checked (List (String × Bool)) :=
  match v with
  | .map entries =>
    .all (entries.map fun (k, v) =>
      .both (nameOf k) (fit [.text "settings", placeOf k] Coercion.bool v))
  | v => .problem [.text "settings"] .notMap v

/-- The configuration that data describes. -/
def ofEntries (entries : List (Value × Value)) : Checked Config :=
  let default : Config := {}
  let limits := field entries "parser" default.limits limitsOf
  let missing := field entries "evaluation" default.missing missingOf
  let settings := field entries "settings" default.settings settingsOf
  let verbosity := field entries "verbosity" default.verbosity
    (fit [.text "verbosity"] Coercion.verbosity)
  (Checked.both limits (.both missing (.both settings verbosity))).map
    fun (limits, missing, settings, verbosity) => { limits, missing, settings, verbosity }

end Config

end FlagLogic
