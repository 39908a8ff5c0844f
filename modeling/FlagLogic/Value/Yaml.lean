import FlagLogic.Value

/-!
YAML as a run of the program has it: a library that reads texts and writes maps. Which texts are
documents, and of what values, is the business of the library. Reading a text has three outcomes, and
nothing is assumed about which of them it has.
-/

namespace FlagLogic

namespace Yaml

/-- A failure that is none of the format, such as a date that is in no calendar. -/
structure Failure where
  kind : String
  message : String
  deriving DecidableEq, Repr

/-- What comes of reading a text. -/
inductive Loaded where
  /-- The document that the text holds, or null if it holds none. -/
  | document (v : Value)
  /-- The text breaks the rules of the format. -/
  | invalid (detail : String)
  /-- The library fails. -/
  | failed (failure : Failure)
  deriving DecidableEq

end Yaml

/-- A library for YAML. -/
structure Yaml where
  /-- Reads a text. If the text stands in a file, the library is told the name of the file. -/
  load : (file : Option String) → (text : String) → Yaml.Loaded
  /-- Writes a map. -/
  dump : List (Value × Value) → String

namespace Yaml

/-- A library that can read these texts only, and writes nothing. -/
def knowing (texts : List (String × Loaded)) : Yaml where
  load _ text := (texts.lookup text).getD (.invalid "")
  dump _ := ""

end Yaml

end FlagLogic
