import FlagLogic.Error
import FlagLogic.Value

/-!
Environments, which give settings their values. A mapping knows the values of some names, and a
policy says what becomes of the others; a host answers for every name, or declines to.
-/

namespace FlagLogic

/-- What becomes of a setting that a mapping does not hold. -/
inductive Missing where
  /-- It counts as false. -/
  | lenient
  /-- It is an error. -/
  | strict
  deriving DecidableEq, Repr

/-- The name of the policy. -/
def Missing.name : Missing → String
  | .lenient => "false"
  | .strict => "error"

/-- The policy of this name. -/
def Missing.ofName? (name : String) : Option Missing :=
  if name = Missing.lenient.name then some .lenient
  else if name = Missing.strict.name then some .strict
  else none

/-- A key of a mapping: a name, or a value of another kind that no setting name is equal to. -/
inductive Key where
  | name (text : String)
  | other (shown : String)
  deriving DecidableEq, Repr

/-- The key as it is listed in reports. -/
def Key.listed : Key → String
  | name text => text
  | other shown => shown

/-- The key that a value is. -/
def Key.ofValue : Value → Key
  | .text s => name s
  | v => other v.plain

/-- Where the values of settings come from. -/
inductive Environment where
  | mapping (entries : List (Key × Bool))
  /-- The host's answer for each name, `none` where it declines. -/
  | host (answer : String → Option Bool)

namespace Environment

/-- The names that a mapping holds, in order. -/
def known : Environment → List String
  | mapping entries => entries.map (·.1.listed)
  | host _ => []

/-- Gives a name a value. A name that is present keeps its place. -/
def set (env : Environment) (name : String) (value : Bool) : Environment :=
  match env with
  | mapping entries =>
    if entries.any (·.1 == .name name) then
      mapping (entries.map fun e => if e.1 == .name name then (e.1, value) else e)
    else mapping (entries ++ [(.name name, value)])
  | host answer => host fun n => if n = name then some value else answer n

/-- Takes a name out of a mapping. -/
def unset (env : Environment) (name : String) : Environment :=
  match env with
  | mapping entries => mapping (entries.filter (·.1 != .name name))
  | host answer => host answer

/-- The number of names that a mapping holds. -/
def size (env : Environment) : Nat := env.known.length

end Environment

/-! ## Evaluators from data -/

/-- Why no evaluator can be made. -/
inductive SetupError where
  /-- A value of this kind is no environment. -/
  | noEnvironment (kind : String)
  /-- The value shown is not the name of a policy. -/
  | noPolicy (shown : String)
  deriving DecidableEq, Repr

/-- The report of an evaluator that cannot be made. -/
def SetupError.message : SetupError → String
  | noEnvironment kind => "Environment must be a mapping or a callable, got " ++ kind
  | noPolicy shown => shown ++ " is not a valid MissingSetting"

/-- A map as an environment: its values by whether they count as true. -/
def Environment.ofValue? : Value → Except SetupError Environment
  | .map entries => .ok (.mapping (entries.map fun (k, v) => (.ofValue k, v.truth)))
  | v => .error (.noEnvironment v.kind)

/-- The policy that a value names. -/
def Missing.ofValue? (v : Value) : Except SetupError Missing :=
  match v with
  | .text s =>
    match ofName? s with
    | some missing => .ok missing
    | none => .error (.noPolicy v.shown)
  | v => .error (.noPolicy v.shown)

end FlagLogic
