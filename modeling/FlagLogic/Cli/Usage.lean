import FlagLogic.Report
import FlagLogic.Text.Quoted

/-!
The commands of the program, their options, and the ways to use them wrongly.
-/

namespace FlagLogic.Cli

/-- The commands. `main` is the program itself and `config` a family of commands. -/
inductive Command where
  | main
  | evaluate
  | parse
  | check
  | config
  | configShow
  deriving DecidableEq, Repr

/-- The options of all commands. -/
inductive Opt where
  | help
  | version
  | config
  | verbose
  | quiet
  | set
  | settingsFile
  | strict
  | format
  | exitStatus
  deriving DecidableEq, Repr

/-- How an option is written, and whether a value belongs to it. -/
structure Spelling where
  option : Opt
  names : List String
  takesValue : Bool := false
  deriving DecidableEq, Repr

namespace Command

/-- The words that call the command. -/
def path : Command → String
  | main => "minlog"
  | evaluate => "minlog eval"
  | parse => "minlog parse"
  | check => "minlog check"
  | config => "minlog config"
  | configShow => "minlog config show"

/-- What may follow those words. -/
def arguments : Command → String
  | main => "[OPTIONS] [COMMAND] [ARGS]..."
  | config => "[OPTIONS] COMMAND [ARGS]..."
  | configShow => "[OPTIONS]"
  | evaluate | parse | check => "[OPTIONS] EXPRESSION"

/-- The line that shows how to use the command. -/
def usage (c : Command) : String := "Usage: " ++ c.path ++ " " ++ c.arguments

/-- The command that a word calls inside another command. -/
def inside? : Command → String → Option Command
  | main, "eval" => some evaluate
  | main, "parse" => some parse
  | main, "check" => some check
  | main, "config" => some config
  | config, "show" => some configShow
  | _, _ => none

/-- The options of a command. -/
def spellings (c : Command) : List Spelling :=
  (match c with
    | main => [
      ⟨.config, ["-c", "--config"], true⟩, ⟨.verbose, ["-v", "--verbose"], false⟩,
      ⟨.quiet, ["-q", "--quiet"], false⟩, ⟨.version, ["--version"], false⟩]
    | evaluate => [
      ⟨.set, ["-s", "--set"], true⟩, ⟨.settingsFile, ["-f", "--settings-file"], true⟩,
      ⟨.strict, ["--strict"], false⟩, ⟨.format, ["--format"], true⟩,
      ⟨.exitStatus, ["--exit-status"], false⟩]
    | parse => [⟨.format, ["--format"], true⟩]
    | configShow => [⟨.format, ["-f", "--format"], true⟩]
    | check | config => []) ++ [⟨.help, ["--help"], false⟩]

/-- The formats that a command can be asked for. -/
def formats : Command → List String
  | configShow => ["yaml", "json"]
  | _ => [Format.text.name, Format.json.name]

end Command

/-! ## Wrong uses -/

/-- What is wrong with the words of a command. -/
inductive Misuse where
  | noSuchOption (name : String)
  | valueMissing (name : String)
  | valueUnwanted (name : String)
  | noSuchCommand (name : String)
  | commandMissing
  | expressionMissing
  | surplus (words : List String)
  /-- A value that is none of the choices. -/
  | noChoice (names : List String) (value : String) (choices : List String)
  | fileMissing (names : List String) (path : String)
  | fileIsDirectory (names : List String) (path : String)
  /-- A setting is not written as a name, an equals sign and a value. -/
  | noAssignment (word : String)
  /-- The value of a setting is no truth value. -/
  | noTruth (word : String)
  /-- The file of settings is not YAML. -/
  | settingsNotYaml (path : String) (detail : String)
  /-- The file of settings holds something else than names and truth values. -/
  | noSettings (path : String)
  deriving DecidableEq, Repr

namespace Misuse

/-- The names of an option, as they are shown together. -/
def hint (names : List String) : String := " / ".intercalate (names.map fun n => "'" ++ n ++ "'")

/-- What is wrong, in words. -/
def message : Misuse → String
  | noSuchOption name => "No such option " ++ Text.quoted name ++ "."
  | valueMissing name => "Option " ++ Text.quoted name ++ " requires an argument."
  | valueUnwanted name => "Option " ++ Text.quoted name ++ " does not take a value."
  | noSuchCommand name => "No such command " ++ Text.quoted name ++ "."
  | commandMissing => "Missing command."
  | expressionMissing => "Missing argument 'EXPRESSION'."
  | surplus words =>
    "Got unexpected extra argument" ++ (if words.length = 1 then "" else "s") ++ " ("
      ++ " ".intercalate words ++ ")"
  | noChoice names value choices =>
    "Invalid value for " ++ hint names ++ ": " ++ Text.quoted value ++ " is not one of "
      ++ ", ".intercalate (choices.map Text.quoted) ++ "."
  | fileMissing names path =>
    "Invalid value for " ++ hint names ++ ": File " ++ Text.quoted path ++ " does not exist."
  | fileIsDirectory names path =>
    "Invalid value for " ++ hint names ++ ": File " ++ Text.quoted path ++ " is a directory."
  | noAssignment word =>
    "Invalid value for --set: expected NAME=VALUE, got " ++ Text.quoted word
  | noTruth word => "Invalid value for --set: " ++ Text.quoted word ++ " is not a boolean"
  | settingsNotYaml path detail =>
    "Invalid value for --settings-file: invalid YAML in " ++ path ++ ": " ++ detail
  | noSettings path =>
    "Invalid value for --settings-file: " ++ path ++ " must map setting names to booleans"

/-- Whether the usage of the command is shown as well. -/
def showsUsage : Misuse → Bool
  | valueMissing _ | valueUnwanted _ => false
  | _ => true

/-- The report of a wrong use of a command. -/
def report (c : Command) (m : Misuse) : String :=
  (if m.showsUsage then c.usage ++ "\nTry '" ++ c.path ++ " --help' for help.\n\n" else "")
    ++ "Error: " ++ m.message

end Misuse

end FlagLogic.Cli
