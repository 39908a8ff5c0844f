import FlagLogic.Cli
import FlagLogic.Log.Clock
import Std.Time.DateTime

/-!
The program, for any library that reads and writes YAML. It looks at its surroundings, runs, and
prints what the run comes to.
-/

namespace FlagLogic.Main

/-- What stands at a path. A file that cannot be read as text counts as absent. -/
def entryAt (path : String) : IO Entry := do
  match ← (IO.FS.readFile path).toBaseIO with
  | .ok text => return .file text
  | .error (.inappropriateType _ code _) => return if code = 21 then .directory else .absent
  | .error _ => return .absent

/-- The variables that the program is started with. -/
def startVars : IO (List (String × String)) := do
  let text ← IO.FS.readFile "/proc/self/environ"
  return (Text.pieces (· == '\x00') text.toList).filterMap fun cs =>
    (Text.splitFirst '=' cs).map fun (name, value) => (String.ofList name, String.ofList value)

/-- The paths that a word of the command line may name: the word itself, and a value at its end. -/
def pathsIn (word : String) : List String :=
  let value := (Text.splitFirst '=' word.toList).toList.map fun (_, value) => String.ofList value
  let raw := [word, String.ofList (word.toList.drop 2)] ++ value
  raw ++ raw.map Path.normal

/-- What the program can see. -/
def look (yaml : Yaml) (words : List String) : IO Surroundings := do
  let directory := toString (← IO.currentDir)
  let bare : Surroundings := { directory, vars := ← startVars, entry := fun _ => .absent, yaml }
  let paths := [bare.projectFile, bare.userFile, Path.join directory ".env"]
    ++ words.flatMap pathsIn
  let entries ← paths.eraseDups.mapM fun path => return (path, ← entryAt path)
  return { bare with entry := fun path => (entries.lookup path).getD .absent }

/-- The time. -/
def now : IO Log.Clock := do
  let moment ← Std.Time.Timestamp.now
  return .ofNanoseconds moment.toNanosecondsSinceUnixEpoch.val.toNat

/-- Runs the program. -/
def program (yaml : Yaml) (words : List String) : IO UInt32 := do
  let run := Cli.run (← look yaml words) (← now) words
  for line in run.lines do
    match line.stream with
    | .out => IO.println line.text
    | .err => IO.eprintln line.text
  match run.ending with
  | .code code => return code.toUInt32
  | .escaped e =>
    IO.eprintln e.message
    return 1

end FlagLogic.Main
