import FlagLogic.Text.Pieces
import FlagLogic.Value.Yaml

/-!
The surroundings that a run can see: its working directory, its variables, the files, and the library
that it reads YAML with. They are data, so that what a run does with them is a function of them.
-/

namespace FlagLogic

/-! ## Paths -/

namespace Path

/-- The slashes that a path starts with, as they count: two are kept, more are as good as one. -/
def root : List Char → String
  | '/' :: '/' :: '/' :: _ => "/"
  | '/' :: '/' :: _ => "//"
  | '/' :: _ => "/"
  | _ => ""

/-- The names along a path; single dots and repeated slashes do not count. -/
def names (cs : List Char) : List (List Char) :=
  (Text.pieces (· == '/') cs).filter fun p => p != [] && p != ['.']

/-- A path as it is shown. -/
def normal (path : String) : String :=
  let cs := path.toList
  match root cs, names cs with
  | "", [] => "."
  | r, parts => r ++ "/".intercalate (parts.map String.ofList)

/-- A path below a directory. -/
def join (directory path : String) : String :=
  normal (if directory.toList.getLast? = some '/' then directory ++ path
    else directory ++ "/" ++ path)

end Path

/-! ## Surroundings -/

/-- What stands at a path. -/
inductive Entry where
  | absent
  | directory
  | file (text : String)
  deriving DecidableEq, Repr

/-- What a run can see of the world. Variables are listed in order, each name once. -/
structure Surroundings where
  directory : String
  vars : List (String × String)
  entry : String → Entry
  yaml : Yaml

namespace Surroundings

/-- The value of a variable. -/
def valueOf? (s : Surroundings) (name : String) : Option String := s.vars.lookup name

/-- The home directory. -/
def home (s : Surroundings) : String :=
  let cs := ((s.valueOf? "HOME").getD "").toList
  let kept := (cs.reverse.dropWhile (· == '/')).reverse
  if kept = [] then "/" else Path.normal (String.ofList kept)

/-- The configuration file of the project that the run works on. -/
def projectFile (s : Surroundings) : String := Path.join s.directory "minlog.yaml"

/-- The configuration file of the user. -/
def userFile (s : Surroundings) : String := Path.join s.home ".config/minlog/config.yaml"

/-- The surroundings with more variables; those that are there already keep their values. -/
def withDefaults (s : Surroundings) (vars : List (String × String)) : Surroundings :=
  { s with vars := vars.foldl (fun vs (name, value) =>
      if (vs.lookup name).isSome then vs else vs ++ [(name, value)]) s.vars }

end Surroundings

end FlagLogic
