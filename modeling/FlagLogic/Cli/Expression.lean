import FlagLogic.Cli.Outcome
import FlagLogic.Config.Validation
import FlagLogic.Eval
import FlagLogic.Surroundings
import FlagLogic.Text.Pieces

/-!
The commands on expressions: evaluate one, show its structure, or check it. Each works under the
configured bounds, and ends with code 1 and a report if there is something wrong with the expression.
-/

namespace FlagLogic.Cli

/-- The end of a command whose expression is at fault. -/
def Outcome.failed (acts : List Act) (e : Error) (format : Format) : Outcome :=
  { acts := acts ++ [.err (e.diagnostic.render format)], code := 1 }

/-- The events of a run as acts. -/
def announced (events : List Event) : List Act := events.map .announce

/-! ## Parsing and checking -/

/-- Shows the structure of an expression, as canonical text or as a tree. -/
def parseCommand (config : Config) (expression : String) (format : Format) : Outcome :=
  let run := Traced.parse config.limits expression
  let acts := announced run.events
  match run.outcome with
  | .error e => .failed acts e format
  | .ok f =>
    let text := match format with
      | .text => f.text
      | .json => Json.pretty f.toValue
    { acts := acts ++ [.out text], code := 0 }

/-- The line of `check` for a setting: settings without a configured value are marked. -/
def settingLine (config : Config) (name : String) : String :=
  "  " ++ name ++ if (config.settings.lookup name).isSome then "" else "  (no configured value)"

/-- Checks an expression and lists its settings, unless only failures are asked for. -/
def checkCommand (config : Config) (quiet : Bool) (expression : String) : Outcome :=
  let run := Traced.parse config.limits expression
  let acts := announced run.events
  match run.outcome with
  | .error e => .failed acts e .text
  | .ok f =>
    let lines := "OK" :: f.settings.map (settingLine config)
    { acts := acts ++ if quiet then [] else lines.map .out, code := 0 }

/-! ## Evaluating -/

/-- What is asked of an evaluation. -/
structure EvalRequest where
  expression : String
  /-- Settings with their values, each as one word. -/
  assignments : List String := []
  /-- A file of settings. -/
  settingsFile : Option String := none
  /-- Settings without a value are an error. -/
  strict : Bool := false
  format : Format := .text
  /-- A false result shows in the code. -/
  exitStatus : Bool := false
  deriving DecidableEq, Repr

/-- A setting and its value from one word: the value stands behind the last equals sign, so that names
may hold equals signs themselves. -/
def assignment? (word : String) : Except Misuse (String × Bool) :=
  match Text.splitLast '=' word.toList with
  | none => .error (.noAssignment word)
  | some (name, value) =>
    let name := Text.strip name
    let value := String.ofList (Text.strip value)
    if name = [] then .error (.noAssignment word)
    else
      match Coercion.boolOfText value with
      | .ok b => .ok (String.ofList name, b)
      | .error _ => .error (.noTruth value)

/-- What keeps an evaluation from its settings. -/
inductive Hindrance where
  /-- The command is used wrongly. -/
  | misuse (m : Misuse)
  /-- The library for YAML fails on the file of settings. -/
  | failure (failure : Yaml.Failure)
  deriving DecidableEq, Repr

/-- The settings in a file; none if the file holds nothing. -/
def fileSettings (s : Surroundings) (path : String) : Except Hindrance (List (String × Bool)) :=
  let shown := Path.normal path
  let text := match s.entry path with
    | .file text => text
    | _ => ""
  match s.yaml.load none text with
  | .invalid detail => .error (.misuse (.settingsNotYaml shown detail))
  | .failed failure => .error (.failure failure)
  | .document .null => .ok []
  | .document v => (Config.settingsOf v).mapError fun _ => .misuse (.noSettings shown)

/-- The values of settings for an evaluation: the configured ones, those of the file, and those of the
command line, later ones over earlier ones. -/
def EvalRequest.environment (s : Surroundings) (config : Config) (r : EvalRequest) :
    Except Hindrance Environment := do
  let file ← match r.settingsFile with
    | some path => fileSettings s path
    | none => .ok []
  let assigned ← (r.assignments.mapM assignment?).mapError .misuse
  return (file ++ assigned).foldl (fun env (name, b) => env.set name b) config.environment

/-- Evaluates an expression in an environment. -/
def evaluateIn (config : Config) (r : EvalRequest) (env : Environment) : Outcome :=
  let parsing := Traced.parse config.limits r.expression
  let failed (events : List Event) (e : Error) : Outcome :=
    .failed (announced (events ++ [.evaluationFailed r.expression e.message])) e r.format
  match parsing.outcome with
  | .error e => failed parsing.events e
  | .ok f =>
    let evaluation := evaluate env (if r.strict then .strict else config.missing) f
    let events := parsing.events ++ evaluation.events
    match evaluation.outcome with
    | .error e => failed events e
    | .ok b =>
      let text := match r.format with
        | .text => Report.truth b
        | .json => Json.pretty (.record [("expression", .text f.text), ("result", .bool b)])
      { acts := announced events ++ [.out text], code := if r.exitStatus && !b then 1 else 0 }

/-- Evaluates an expression. -/
def evaluateCommand (s : Surroundings) (config : Config) (r : EvalRequest) : Outcome :=
  match r.environment s config with
  | .error (.misuse m) => .misused .evaluate m
  | .error (.failure failure) => { acts := [], code := 1, escaped := some failure }
  | .ok env => evaluateIn config r env

end FlagLogic.Cli
