import FlagLogic.Config.Layer
import FlagLogic.Text.Case
import FlagLogic.Value.Json

/-!
The layer of configuration that variables make. A variable named after a part of the configuration
holds the part, the parts that are maps as JSON; after a double underscore its name goes on with the
keys inside the part. Capitals and small letters in names do not differ.
-/

namespace FlagLogic.Config

/-- What the names of variables that belong to the configuration start with, in small letters. -/
def variablePrefix : String := "minlog_"

/-- The variables by their names in small letters. Of variables whose names differ in case only, the
last one counts. -/
def lowered (vars : List (String × String)) : List (String × String) :=
  vars.foldl (fun vs (name, value) =>
    let name := Text.lowercased name
    if (vs.lookup name).isSome then vs.map fun v => if v.1 == name then (name, value) else v
    else vs ++ [(name, value)]) []

/-- The pieces of a name between double underscores. -/
def keysOf : List Char → List (List Char)
  | [] => [[]]
  | '_' :: '_' :: cs => [] :: keysOf cs
  | c :: cs =>
    match keysOf cs with
    | piece :: rest => (c :: piece) :: rest
    | [] => [[c]]

/-- Writes a value under a path of keys, making maps on the way. A path through anything else than a
map leads nowhere. -/
def putAt (entries : List (Value × Value)) : (path : List String) → Value → List (Value × Value)
  | [], _ => entries
  | [key], v => Value.put entries (.text key) v
  | key :: path, v =>
    match Value.find? entries (.text key) with
    | none => Value.put entries (.text key) (.map (putAt [] path v))
    | some (.map inner) => Value.put entries (.text key) (.map (putAt inner path v))
    | some _ => entries

/-- A part of the configuration that is a map. -/
structure Part where
  name : String
  /-- The keys that the part has; none if any key will do. -/
  keys : List String
  deriving DecidableEq, Repr

/-- The bounds on expressions. -/
def Part.limits : Part := ⟨"parser", ["operation_limit", "max_depth"]⟩

/-- The evaluation policy. -/
def Part.evaluation : Part := ⟨"evaluation", ["missing_setting"]⟩

/-- The values of settings. -/
def Part.settings : Part := ⟨"settings", []⟩

namespace Part

/-- The value of a variable for a key inside the part. Where any key will do, a value that is JSON
counts as what it spells. -/
def inner (p : Part) (value : String) : Value :=
  if p.keys = [] then (Json.parse? value).getD (.text value) else .text value

/-- What the variables for keys inside the part say. -/
def nested (p : Part) (vars : List (String × String)) : List (Value × Value) :=
  let start := (variablePrefix ++ p.name ++ "__").toList
  vars.foldl (fun entries (name, value) =>
    let name := name.toList
    if start.isPrefixOf name then
      putAt entries ((keysOf (name.drop start.length)).map String.ofList) (p.inner value)
    else entries) []

/-- The part with its own keys in place of other spellings of them. -/
def respelled (p : Part) (entries : List (Value × Value)) : List (Value × Value) :=
  entries.foldl (fun es (k, v) =>
    let key := match k with
      | .text s => .text ((p.keys.find? (· == Text.lowercased s)).getD s)
      | k => k
    Value.put es key v) []

/-- What the variables say about the part: nothing if there are none or if the part is null. A
variable for the whole part that is not JSON is refused. -/
def read? (p : Part) (vars : List (String × String)) : Option (Option Value) :=
  let nested := p.nested vars
  match vars.lookup (variablePrefix ++ p.name) with
  | none => some (if nested = [] then none else some (.map (p.respelled nested)))
  | some text =>
    match Json.parse? text with
    | none => none
    | some .null => some none
    | some (.map entries) => some (some (.map (p.respelled (Layer.overlay entries nested))))
    | some v => some (some v)

end Part

/-- The layer that the variables make; where one is refused, the name of its part. -/
def variableLayer (vars : List (String × String)) : Except String (List (Value × Value)) := do
  let vars := lowered vars
  let parts ← [Part.limits, Part.evaluation, Part.settings].filterMapM fun p =>
    match p.read? vars with
    | some v => .ok (v.map fun v => (Value.text p.name, v))
    | none => .error p.name
  let verbosity := (vars.lookup (variablePrefix ++ "verbosity")).toList
  return parts ++ verbosity.map fun v => (.text "verbosity", .text v)

end FlagLogic.Config
