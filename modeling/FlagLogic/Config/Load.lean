import FlagLogic.Config.Validation
import FlagLogic.Config.Variables
import FlagLogic.Surroundings
import FlagLogic.Trace

/-!
Loading the configuration. Its layers, from the uppermost one down: values given outright, variables,
the file of the project, the file of the user, and the defaults. The files are read before the
variables, so their faults are reported first.
-/

namespace FlagLogic

/-- Why there is no configuration. -/
inductive LoadError where
  /-- The file is not YAML; the library says why. -/
  | notYaml (path detail : String)
  /-- The library for YAML fails on a file. -/
  | yamlFailed (failure : Yaml.Failure)
  /-- The file holds something else than a map. -/
  | notMap (path : String) (found : Value)
  /-- There is a directory in place of the file. -/
  | directory (path : String)
  /-- The variable for a part of the configuration is not JSON. -/
  | notJson (part : String)
  /-- A key of the outermost map is not a text. -/
  | keyword
  /-- Some data do not fit. -/
  | invalid (problems : Problems)
  deriving DecidableEq

namespace LoadError

/-- The error in words; of data that do not fit, the first is reported. -/
def message : LoadError → String
  | notYaml path detail => "Invalid YAML in " ++ path ++ ": " ++ detail
  | yamlFailed failure => failure.message
  | notMap path _ => "Config file " ++ path ++ " must contain a mapping"
  | directory path => "[Errno 21] Is a directory: " ++ Text.quoted path
  | notJson part =>
    "error parsing value for field \"" ++ part ++ "\" from source \"EnvSettingsSource\""
  | keyword => "keywords must be strings"
  | invalid problems => "Invalid configuration: " ++ problems.first.misfit.message

/-- The place that the error is about. -/
def field? : LoadError → Option String
  | invalid problems => some problems.first.field
  | _ => none

/-- The value that the error is about. -/
def value? : LoadError → Option Value
  | notMap _ found => some found
  | invalid problems => some problems.first.value
  | _ => none

/-- The error is one of the configuration itself, and is reported as such. The others lie outside
of what loading looks for. -/
def isReported : LoadError → Bool
  | notYaml .. | notMap .. | invalid _ => true
  | yamlFailed _ | directory _ | notJson _ | keyword => false

end LoadError

namespace Config

/-- The data in a YAML file. A file that is not there, and one that holds nothing, have none. -/
def fileLayer (s : Surroundings) (path : String) : Traced LoadError (List (Value × Value)) :=
  match s.entry path with
  | .absent => pure []
  | .directory => throw (.directory path)
  | .file text =>
    match s.yaml.load (some path) text with
    | .invalid detail => throw (.notYaml path detail)
    | .failed failure => throw (.yamlFailed failure)
    | .document .null => do
      Traced.emit (.configEmpty path)
      return []
    | .document (.map entries) => pure entries
    | .document v => throw (.notMap path v)

theorem outcome_fileLayer_of_absent {s : Surroundings} {path : String}
    (hfile : s.entry path = .absent) : (fileLayer s path).outcome = .ok [] := by
  simp only [fileLayer, hfile]
  rfl

theorem outcome_fileLayer_of_load {s : Surroundings} {path text : String}
    {entries : List (Value × Value)} (hfile : s.entry path = .file text)
    (hload : s.yaml.load (some path) text = .document (.map entries)) :
    (fileLayer s path).outcome = .ok entries := by
  simp only [fileLayer, hfile, hload]
  rfl

/-- The configuration that layers make, the uppermost one first. -/
def ofLayers (layers : List (List (Value × Value))) : Except LoadError Config :=
  let entries := Layer.stack layers
  if entries.all fun (k, _) => k.isText then (ofEntries entries).mapError .invalid
  else .error .keyword

/-- The configuration from the surroundings, with values given outright over it. -/
def assemble (s : Surroundings) (given : List (Value × Value)) (project : String) :
    Traced LoadError Config := do
  let projectLayer ← fileLayer s project
  let userLayer ← fileLayer s s.userFile
  let variableLayer ← (variableLayer s.vars).mapError LoadError.notJson
  ofLayers [given, variableLayer, projectLayer, userLayer]

theorem outcome_assemble (s : Surroundings) (given : List (Value × Value)) (project : String) :
    (assemble s given project).outcome = (do
      let projectLayer ← (fileLayer s project).outcome
      let userLayer ← (fileLayer s s.userFile).outcome
      let vars ← (variableLayer s.vars).mapError LoadError.notJson
      ofLayers [given, vars, projectLayer, userLayer]) := by
  simp only [assemble, Traced.outcome_bind]
  rfl

/-- The configuration from the surroundings. The file of the project may be another one than the
usual one. -/
def load (s : Surroundings) (path : Option String) : Traced LoadError Config := do
  let project := (path.map Path.normal).getD s.projectFile
  if s.entry project = .absent then Traced.emit (.configMissing project)
  assemble s [] project

theorem outcome_load (s : Surroundings) (path : Option String) :
    (load s path).outcome =
      (assemble s [] ((path.map Path.normal).getD s.projectFile)).outcome := by
  simp only [load]
  split <;> rfl

end Config

end FlagLogic
