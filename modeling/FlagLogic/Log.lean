import FlagLogic.Text.Case
import FlagLogic.Trace
import FlagLogic.Value.Json

/-!
The log. A record has a severity, the name of the part that writes it, and a name with fields, or a
text. A sink shows the records from a severity on, each on a line of its own, for the eye or as
JSON. A record with fields is set as a line first, and that line is shown as the text of a record; as
long as no sink has been set up, such a line stands alone, and only warnings and worse are shown.
-/

namespace FlagLogic

namespace Level

/-- The name of a level. -/
def name : Level → String
  | debug => "debug"
  | info => "info"
  | warning => "warning"
  | error => "error"
  | critical => "critical"

/-- The severity of a level, as a number. -/
def severity : Level → Int
  | debug => 10
  | info => 20
  | warning => 30
  | error => 40
  | critical => 50

end Level

namespace Log

/-- A record with fields. -/
structure Record where
  level : Level
  logger : String
  name : String
  fields : List (Value × Value) := []
  deriving DecidableEq

/-- A record with a text, of any severity. -/
structure Note where
  severity : Int
  logger : String
  text : String
  deriving DecidableEq, Repr

/-- The times of a record: in universal time, and on the clock of the place. -/
structure Clock where
  universal : String
  wall : String
  deriving DecidableEq, Repr

/-- The name of a severity. -/
def severityName (severity : Int) : String :=
  match [Level.debug, .info, .warning, .error, .critical].find? (·.severity == severity) with
  | some level => level.name
  | none => if severity = 0 then "notset" else "level " ++ toString severity

/-! ## Lines for the eye -/

/-- A text filled up with spaces. -/
def padded (width : Nat) (s : String) : String :=
  s ++ String.ofList (List.replicate (width - s.length) ' ')

/-- The value of a field: a text as it is unless it holds blanks, quotes or an equals sign. -/
def fieldText : Value → String
  | .text s =>
    if s.toList.any fun c => " \t=\r\n\"'".toList.contains c then Text.quoted s else s
  | v => v.shown

/-- The fields of a line, in the order of their names. -/
def fieldTexts (fields : List (Value × Value)) : List String :=
  let named := fields.map fun (k, v) => (k.plain, v)
  (named.mergeSort fun a b => !(b.1 < a.1)).map fun (name, v) => name ++ "=" ++ fieldText v

/-- A line: the time, the level, what it is about, the part that writes it, and the fields. -/
def line (time level text : String) (logger : Option String) (fields : List (Value × Value)) :
    String :=
  let parts := [time, "[" ++ padded 9 level ++ "]", padded 30 text]
    ++ (logger.map fun l => "[" ++ l ++ "]").toList ++ fieldTexts fields
  let all := (" ".intercalate parts).toList
  String.ofList (all.reverse.dropWhile (· == ' ')).reverse

/-! ## Lines as JSON -/

/-- Fields followed by the data of the record itself, which hide fields of the same names. -/
def entries (fields : List (Value × Value)) (time level text logger : String) :
    List (Value × Value) :=
  [("event", text), ("level", level), ("logger", logger), ("timestamp", time)].foldl
    (fun es (k, v) => Value.put es (.text k) (.text v)) fields

/-! ## Sinks -/

/-- How lines are written. -/
inductive Style where
  | console
  | json
  deriving DecidableEq, Repr

/-- Where records go: the least severity that is shown, and the style of the lines. -/
structure Sink where
  threshold : Int
  style : Style
  deriving DecidableEq, Repr

/-- The threshold as long as no sink has been set up. -/
def defaultThreshold : Int := Level.warning.severity

/-- The names of the data of a record itself. -/
def ownNames : List String := ["event", "level", "logger", "timestamp"]

/-- The fields that are not hidden by the data of the record itself. -/
def Record.freeFields (r : Record) : List (Value × Value) :=
  r.fields.filter fun (k, _) => !ownNames.contains k.plain

/-- The line of a note in a sink. A note without severity is never shown. -/
def Note.line? (n : Note) (sink : Option Sink) (clock : Clock) : Option String :=
  match sink with
  | none => if n.severity ≥ defaultThreshold then some n.text else none
  | some sink =>
    if n.severity > 0 ∧ n.severity ≥ sink.threshold then
      let level := severityName n.severity
      some (match sink.style with
        | .console => line clock.universal level n.text (some n.logger) []
        | .json => Json.compact (.map (entries [] clock.universal level n.text n.logger)))
    else none

/-- The line of a record in a sink: a note whose text is the record as a line. -/
def Record.line? (r : Record) (sink : Option Sink) (clock : Clock) : Option String :=
  let text : String :=
    match sink with
    | none => line clock.wall r.level.name r.name none r.freeFields
    | some ⟨_, .console⟩ =>
      line clock.universal r.level.name r.name (some r.logger) r.freeFields
    | some ⟨_, .json⟩ =>
      Json.compact (.map (entries r.fields clock.universal r.level.name r.name r.logger))
  Note.line? ⟨r.level.severity, r.logger, text⟩ sink clock

/-! ## Sinks from variables -/

/-- The severities that a variable can name. -/
def severityNames : List (String × Int) := [
  ("CRITICAL", 50), ("FATAL", 50), ("ERROR", 40), ("WARNING", 30), ("WARN", 30), ("INFO", 20),
  ("DEBUG", 10), ("NOTSET", 0)]

/-- The threshold that the variables name, in capitals or small letters. -/
def thresholdOf (vars : List (String × String)) : Int :=
  ((vars.lookup "MINLOG_LOG_LEVEL").bind fun name =>
    severityNames.lookup (Text.uppercased name)).getD defaultThreshold

/-- The style that the variables name. -/
def styleOf (vars : List (String × String)) : Style :=
  if (vars.lookup "MINLOG_LOG_FORMAT").map Text.lowercased = some "json" then .json
  else .console

/-- The sink for the variables, with a threshold and JSON asked for or not. -/
def Sink.make (vars : List (String × String)) (threshold : Option Int) (json : Bool) : Sink where
  threshold := threshold.getD (thresholdOf vars)
  style := if json then .json else styleOf vars

end Log

/-! ## Events -/

namespace Event

/-- The record of an event. -/
def record (e : Event) : Log.Record :=
  let fields (fs : List (String × Value)) : List (Value × Value) := fs.map fun (k, v) => (.text k, v)
  match e with
  | tokenized x n =>
    ⟨.debug, "minlog.expressions.tokens", "expression_tokenized",
      fields [("expression", .text x), ("token_count", .int n)]⟩
  | sequenced x n =>
    ⟨.debug, "minlog.expressions.sequencer", "expression_sequenced",
      fields [("expression", .text x), ("node_count", .int n)]⟩
  | folded x n =>
    ⟨.debug, "minlog.expressions.builder", "expression_tree_built",
      fields [("expression", (x.map Value.text).getD .null), ("node_count", .int n)]⟩
  | parsed x n =>
    ⟨.debug, "minlog.expressions.parser", "expression_parsed",
      fields [("expression", .text x), ("node_count", .int n)]⟩
  | undefined s =>
    ⟨.debug, "minlog.expressions.evaluator", "setting_undefined", fields [("setting", .text s)]⟩
  | evaluationFailed x m =>
    ⟨.debug, "minlog.cli.commands.eval", "eval_failed",
      fields [("expression", .text x), ("error", .text m)]⟩
  | configMissing p =>
    ⟨.info, "minlog.config", "project_config_not_found", fields [("path", .text p)]⟩
  | configEmpty p => ⟨.warning, "minlog.config", "config_file_empty", fields [("path", .text p)]⟩

end Event

end FlagLogic
