import FlagLogic.Cli.Expression
import FlagLogic.Cli.Words
import FlagLogic.Config.Load
import FlagLogic.Surroundings.VariableFile

/-!
The command line. The words of a command line are told apart, the configuration is loaded, and the
command that they call runs. Everything about the program itself is looked at before the
configuration is loaded, and everything about a command inside it afterwards.
-/

namespace FlagLogic.Cli

/-- What the program knows when it comes to a command. -/
structure Context where
  surroundings : Surroundings
  config : Config
  quiet : Bool

/-! ## Values of options -/

/-- Whether a value fits an option of a command. -/
def checkValue (s : Surroundings) (c : Command) (o : Opt) (value : String) : Except Misuse Unit :=
  let names := ((c.spellings.find? (·.option = o)).map (·.names)).getD []
  match o with
  | .format =>
    if c.formats.contains value then .ok () else .error (.noChoice names value c.formats)
  | .settingsFile =>
    match s.entry value with
    | .absent => .error (.fileMissing names value)
    | .directory => .error (.fileIsDirectory names value)
    | .file _ => .ok ()
  | _ => .ok ()

/-- Whether the values of all the options of a command fit. -/
def checkValues (s : Surroundings) (c : Command) (w : Words) : Except Misuse Unit :=
  w.given.forM fun o => checkValue s c o ((w.value? o).getD "")

/-- The expression of a command: the only word beside its options. -/
def expression? (w : Words) : Except Misuse String :=
  match w.others with
  | [] => .error .expressionMissing
  | [x] => .ok x
  | _ :: more => .error (.surplus more)

/-- The format that is asked for. -/
def formatOf (w : Words) : Format := if w.value? .format = some Format.json.name then .json else .text

/-! ## Commands -/

/-- The version of the program. -/
def versionOutcome : Outcome := { acts := [.out "minlog, version 0.1.0"], code := 0 }

/-- The answer to the options that are answered before anything else is looked at. -/
def answerFirst? (c : Command) (w : Words) : Option Outcome :=
  w.first?.map fun o => if o = .help then .help c else versionOutcome

/-- The end of a command line that calls a command which is not there. A word that reads as an option
is taken as one. -/
def unknown (c : Command) (name : String) (rest : List String) : Outcome :=
  match Words.read c.spellings false (name :: rest) with
  | .error m => .misused c m
  | .ok w => (answerFirst? c w).getD (.misused c (.noSuchCommand name))

/-- Shows the configuration, as JSON or as YAML. -/
def showCommand (yaml : Yaml) (config : Config) (format : Format) : Outcome :=
  let text := match format with
    | .json => Json.pretty config.toValue
    | .text => yaml.dump config.entries
  { acts := [.out text], code := 0 }

/-- Runs a command that is not a family of commands. -/
def runLeaf (ctx : Context) (c : Command) (w : Words) : Except Misuse Outcome := do
  checkValues ctx.surroundings c w
  match c with
  | .evaluate =>
    let expression ← expression? w
    return evaluateCommand ctx.surroundings ctx.config {
      expression
      assignments := w.values .set
      settingsFile := w.value? .settingsFile
      strict := w.has .strict
      format := formatOf w
      exitStatus := w.has .exitStatus }
  | .parse =>
    let expression ← expression? w
    return parseCommand ctx.config expression (formatOf w)
  | .check =>
    let expression ← expression? w
    return checkCommand ctx.config ctx.quiet expression
  | _ =>
    if w.others = [] then return showCommand ctx.surroundings.yaml ctx.config (formatOf w)
    throw (.surplus w.others)

/-- Runs a command with the words behind it. -/
def runCommand (ctx : Context) (c : Command) (words : List String) : Outcome :=
  match Words.read c.spellings (c != .config) words with
  | .error m => .misused c m
  | .ok w =>
    match answerFirst? c w, runLeaf ctx c w with
    | some outcome, _ => outcome
    | none, .ok outcome => outcome
    | none, .error m => .misused c m

/-- Runs one of a family of commands with the words behind the family. -/
def runFamily (ctx : Context) (c : Command) (words : List String) : Outcome :=
  if words = [] then { acts := [.say ⟨.err, c.usage, true⟩], code := 2 }
  else
    match Words.read c.spellings false words with
    | .error m => .misused c m
    | .ok w =>
      match answerFirst? c w, w.others with
      | some outcome, _ => outcome
      | none, [] => .misused c .commandMissing
      | none, name :: rest =>
        match c.inside? name with
        | some leaf => runCommand ctx leaf rest
        | none => unknown c name rest

/-! ## The program -/

/-- How a run of the program ends: with a code, or by an error that nothing handles. -/
inductive Ending where
  | code (code : Nat)
  | escaped (e : LoadError)
  deriving DecidableEq

/-- What a run of the program prints, in order, and how it ends. -/
structure Run where
  lines : List Line
  ending : Ending
  deriving DecidableEq

/-- The run that a command amounts to. -/
def Outcome.run (o : Outcome) (sink : Option Log.Sink) (clock : Log.Clock) : Run where
  lines := o.acts.filterMap (Act.line? sink clock)
  ending := match o.escaped with
    | some failure => .escaped (.yamlFailed failure)
    | none => .code o.code

/-- What to look at if the configuration cannot be loaded. -/
def configAdvice : String :=
  "Check minlog.yaml (or the --config file), ~/.config/minlog/config.yaml "
    ++ "and MINLOG_* environment variables."

/-- The report of a configuration that cannot be loaded. -/
def configReport (e : LoadError) : String :=
  let details := (e.field?.toList.filter (· ≠ "")).map ("Field: " ++ ·)
    ++ (e.value?.toList.filter (· != .null)).map fun v => "Value: " ++ v.plain
  Report.failure e.message details configAdvice

/-- The surroundings together with the variables of the file `.env`, and what is said about the lines
of that file that cannot be read. -/
def withVariableFile (s : Surroundings) : Surroundings × List Log.Note :=
  match s.entry (Path.join s.directory ".env") with
  | .file text =>
    (s.withDefaults (VariableFile.read s.valueOf? text),
      (VariableFile.faults text).map fun line =>
        ⟨Level.warning.severity, "variables",
          "could not parse statement starting at line " ++ toString line⟩)
  | _ => (s, [])

/-- The threshold of the log: the options count first, then the configuration. -/
def threshold (w : Words) (config : Config) : Level :=
  if w.has .quiet then .error
  else
    match w.count .verbose with
    | 0 => config.verbosity.level
    | 1 => .info
    | _ => .debug

/-- Loads the configuration, sets up the log and goes on with the command, or shows the help page
where there is none. -/
def runLoaded (s : Surroundings) (clock : Log.Clock) (w : Words)
    (command : Option (Command × List String)) : Run :=
  let (s, notes) := withVariableFile s
  let path := (w.value? .config).filter (· ≠ "")
  let loading := Config.load s path
  let before := notes.filterMap (fun n => (n.line? none clock).map fun text => ⟨.err, text, false⟩)
    ++ (announced loading.events).filterMap (Act.line? none clock)
  match loading.outcome with
  | .error e =>
    if e.isReported then ⟨before ++ [⟨.err, configReport e, false⟩], .code 1⟩
    else ⟨before, .escaped e⟩
  | .ok config =>
    let sink := Log.Sink.make s.vars (some (threshold w config).severity) false
    let ctx : Context := { surroundings := s, config, quiet := w.has .quiet }
    let outcome : Outcome := match command with
      | none => .help .main
      | some (.config, rest) => runFamily ctx .config rest
      | some (c, rest) => runCommand ctx c rest
    let run := outcome.run (some sink) clock
    ⟨before ++ run.lines, run.ending⟩

/-- Runs the program on the words of a command line. -/
def run (s : Surroundings) (clock : Log.Clock) (words : List String) : Run :=
  let early (o : Outcome) : Run := o.run none clock
  match Words.read Command.main.spellings false words with
  | .error m => early (.misused .main m)
  | .ok w =>
    match answerFirst? .main w, w.others with
    | some outcome, _ => early outcome
    | none, [] => runLoaded s clock w none
    | none, name :: rest =>
      match Command.main.inside? name with
      | some c => runLoaded s clock w (some (c, rest))
      | none => early (unknown .main name rest)

end FlagLogic.Cli
