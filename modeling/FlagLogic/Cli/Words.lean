import FlagLogic.Cli.Usage
import FlagLogic.Text.Pieces

/-!
The words of a command line: which are options, which are values of options, and which are neither.
A word of two dashes ends the options. Options of one letter may share a dash, and the rest of the
word after one that takes a value is its value.
-/

namespace FlagLogic.Cli

/-- An option and its value; the value is empty for an option without one. -/
abbrev Given := Opt × String

/-- The words of a command line, told apart. -/
structure Words where
  options : List Given
  others : List String
  deriving DecidableEq, Repr

/-- The options in one word, and an option at its end whose value is the next word. -/
structure Cluster where
  options : List Given
  open? : Option Spelling
  /-- The name that the open option has in the word. -/
  name : String := ""
  deriving DecidableEq, Repr

namespace Words

/-- The option of a name. -/
def find? (spellings : List Spelling) (name : String) : Option Spelling :=
  spellings.find? (·.names.contains name)

/-- Reads the letters after a single dash. -/
def letters (spellings : List Spelling) : List Char → Except Misuse Cluster
  | [] => .ok ⟨[], none, ""⟩
  | c :: cs =>
    let name := String.ofList ['-', c]
    match find? spellings name with
    | none => .error (.noSuchOption name)
    | some s =>
      if s.takesValue then
        .ok (if cs = [] then ⟨[], some s, name⟩ else ⟨[(s.option, String.ofList cs)], none, ""⟩)
      else (letters spellings cs).map fun k => { k with options := (s.option, "") :: k.options }

/-- The name in a word and the value that is written to it with an equals sign. -/
def splitValue (word : String) : String × Option String :=
  match Text.splitFirst '=' word.toList with
  | some (name, value) => (String.ofList name, some (String.ofList value))
  | none => (word, none)

/-- Reads a word that starts with a dash. -/
def cluster (spellings : List Spelling) (word : String) : Except Misuse Cluster :=
  match word.toList with
  | '-' :: '-' :: _ =>
    let (name, value) := splitValue word
    match find? spellings name, value with
    | none, _ => .error (.noSuchOption name)
    | some ⟨option, _, true⟩, some value => .ok ⟨[(option, value)], none, ""⟩
    | some ⟨option, names, true⟩, none => .ok ⟨[], some ⟨option, names, true⟩, name⟩
    | some ⟨_, _, false⟩, some _ => .error (.valueUnwanted name)
    | some ⟨option, _, false⟩, none => .ok ⟨[(option, "")], none, ""⟩
  | cs => letters spellings (cs.drop 1)

/-- A word that is read as options: a dash and something after it. -/
def isOption (word : String) : Bool :=
  match word.toList with
  | '-' :: _ :: _ => true
  | _ => false

/-- Tells the words of a command line apart. If options and other words may not be mixed, the first
other word ends the options. -/
def read (spellings : List Spelling) (mixed : Bool) : List String → Except Misuse Words
  | [] => .ok ⟨[], []⟩
  | word :: rest =>
    if word = "--" then .ok ⟨[], rest⟩
    else if isOption word then
      match cluster spellings word, rest with
      | .error e, _ => .error e
      | .ok ⟨found, none, _⟩, rest =>
        (read spellings mixed rest).map fun w => { w with options := found ++ w.options }
      | .ok ⟨_, some _, name⟩, [] => .error (.valueMissing name)
      | .ok ⟨found, some s, _⟩, value :: rest =>
        (read spellings mixed rest).map fun w =>
          { w with options := found ++ (s.option, value) :: w.options }
    else if mixed then
      (read spellings mixed rest).map fun w => { w with others := word :: w.others }
    else .ok ⟨[], word :: rest⟩

/-- The option that is answered before anything else is looked at, if there is one. -/
def first? (w : Words) : Option Opt :=
  (w.options.find? fun (o, _) => o = .help || o = .version).map (·.1)

/-- The values of an option, in order. -/
def values (w : Words) (o : Opt) : List String :=
  w.options.filterMap fun (p, value) => if p = o then some value else none

/-- The value of an option that counts: the last one. -/
def value? (w : Words) (o : Opt) : Option String := (w.values o).getLast?

/-- How often an option is given. -/
def count (w : Words) (o : Opt) : Nat := (w.values o).length

/-- An option is given. -/
def has (w : Words) (o : Opt) : Bool := w.count o != 0

/-- The options that are given, each once, in the order of their first places. -/
def given (w : Words) : List Opt := (w.options.map (·.1)).eraseDups

end Words

end FlagLogic.Cli
