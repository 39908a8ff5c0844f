import FlagLogic.Surroundings
import FlagLogic.Text.Blank

/-!
Files of variables. Each statement binds a name to a value: `NAME=VALUE`, after the word `export` or
without it. A value is plain up to the end of its line or a comment, or stands between quotes, where
it may run over lines. A value may refer to variables as `${NAME}`, or as `${NAME:-DEFAULT}` with a
text for the case that there is none.
-/

namespace FlagLogic.VariableFile

/-- A statement of a file. -/
inductive Statement where
  /-- A name, and its value if there is an equals sign. -/
  | binding (name : List Char) (value : Option (List Char))
  /-- A comment. -/
  | comment
  /-- Something else. -/
  | fault
  deriving DecidableEq, Repr

/-! ## Reading statements -/

/-- A blank that does not end the line. -/
def isGap (c : Char) : Bool := Text.isBlank c && c != '\n'

/-- The text after the first line. -/
def afterLine (cs : List Char) : List Char := (cs.dropWhile (· != '\n')).drop 1

/-- The text up to the closing quote and the text after it. A quote after a backslash does not close,
unless no other quote follows. -/
def quoteBody (quote : Char) : List Char → Option (List Char × List Char)
  | [] => none
  | '\\' :: c :: cs =>
    if c == quote then
      match quoteBody quote cs with
      | some (body, rest) => some ('\\' :: c :: body, rest)
      | none => some (['\\'], cs)
    else (quoteBody quote (c :: cs)).map fun (body, rest) => ('\\' :: body, rest)
  | c :: cs =>
    if c == quote then some ([], cs)
    else (quoteBody quote cs).map fun (body, rest) => (c :: body, rest)

/-- A text with its escapes replaced by what they stand for. -/
def unescaped (escapes : List (Char × Char)) : List Char → List Char
  | [] => []
  | '\\' :: c :: cs =>
    match escapes.lookup c with
    | some d => d :: unescaped escapes cs
    | none => '\\' :: unescaped escapes (c :: cs)
  | c :: cs => c :: unescaped escapes cs

/-- The escapes between apostrophes. -/
def singleEscapes : List (Char × Char) := [('\\', '\\'), ('\'', '\'')]

/-- The escapes between double quotes. -/
def doubleEscapes : List (Char × Char) :=
  singleEscapes ++ [('"', '"'), ('a', '\x07'), ('b', '\x08'), ('f', '\x0c'), ('n', '\n'),
    ('r', '\r'), ('t', '\t'), ('v', '\x0b')]

/-- A plain value up to its comment, which starts at a number sign after a blank. -/
def withoutComment (afterBlank : Bool) : List Char → List Char
  | [] => []
  | c :: cs => if c == '#' && afterBlank then [] else c :: withoutComment (Text.isBlank c) cs

/-- A value, and what follows it. -/
def value? (cs : List Char) : Option (List Char × List Char) :=
  match cs with
  | '\'' :: rest =>
    (quoteBody '\'' rest).map fun (body, rest) => (unescaped singleEscapes body, rest)
  | '"' :: rest =>
    (quoteBody '"' rest).map fun (body, rest) => (unescaped doubleEscapes body, rest)
  | cs =>
    some (Text.trimEnd (withoutComment false (cs.takeWhile (· != '\n'))),
      cs.dropWhile (· != '\n'))

/-- A name, and what follows it. -/
def name? (cs : List Char) : Option (List Char × List Char) :=
  match cs with
  | '\'' :: rest =>
    match rest.span (· != '\'') with
    | ([], _) | (_, []) => none
    | (name, _ :: rest) => some (name, rest)
  | cs =>
    match cs.span fun c => c != '=' && c != '#' && !Text.isBlank c with
    | ([], _) => none
    | (name, rest) => some (name, rest)

/-- The text without the word `export` in front. -/
def withoutExport (cs : List Char) : List Char :=
  let word := "export".toList
  let rest := cs.drop word.length
  if word.isPrefixOf cs && rest.head?.any isGap then rest.dropWhile isGap else cs

/-- Nothing but blanks and a comment stands before the end of the line. -/
def isLineDone (cs : List Char) : Bool :=
  match cs.dropWhile isGap with
  | [] => true
  | c :: _ => c == '\n' || c == '#'

/-- The statement at the start of a text, and the text from where its last line goes on. -/
def statement (cs : List Char) : Statement × List Char :=
  let cs := withoutExport cs
  if cs.head? = some '#' then (.comment, cs)
  else
    match name? cs with
    | none => (.fault, cs)
    | some (name, rest) =>
      match rest.dropWhile isGap with
      | '=' :: after =>
        let start := after.dropWhile isGap
        match value? start with
        | none => (.fault, start)
        | some (value, rest) =>
          if isLineDone rest then (.binding name (some value), rest) else (.fault, rest)
      | rest => if isLineDone rest then (.binding name none, rest) else (.fault, rest)

/-- The statements of a text with the numbers of the lines that they are found from. Reading stops
where a statement does not use up anything. -/
def statements (line : Nat) (cs : List Char) : List (Nat × Statement) :=
  match cs.dropWhile Text.isBlank with
  | [] => []
  | start =>
    let (found, rest) := statement start
    let rest := afterLine rest
    if rest.length < cs.length then
      (line, found) :: statements (line + (cs.count '\n' - rest.count '\n')) rest
    else [(line, found)]
termination_by cs.length

/-! ## References -/

/-- What follows the opening brace of a reference: the name, the text for the case that there is no
such variable, and what follows the closing brace. -/
def reference? (cs : List Char) : Option (List Char × List Char × List Char) :=
  match cs.span fun c => c != '\x7d' && c != ':' with
  | (name, '\x7d' :: rest) => some (name, [], rest)
  | (name, ':' :: '-' :: rest) =>
    match rest.span (· != '\x7d') with
    | (default, _ :: rest) => some (name, default, rest)
    | (_, []) => none
  | _ => none

/-- A value with its references replaced by what `find` says. -/
def resolved (find : String → Option String) (cs : List Char) : List Char :=
  match cs with
  | [] => []
  | '$' :: '\x7b' :: body =>
    match reference? body with
    | some (name, default, rest) =>
      let value := ((find (String.ofList name)).map String.toList).getD default
      if rest.length < body.length then value ++ resolved find rest else value
    | none => '$' :: resolved find ('\x7b' :: body)
  | c :: cs => c :: resolved find cs
termination_by cs.length

/-! ## Files -/

/-- Binds a name; a name that is bound already keeps its place. -/
def bind (bound : List (String × Option String)) (name : String) (value : Option String) :
    List (String × Option String) :=
  if (bound.lookup name).isSome then bound.map fun b => if b.1 == name then (name, value) else b
  else bound ++ [(name, value)]

/-- The variables that a file binds. References are to the variables of the surroundings first, then
to those bound before. -/
def read (known : String → Option String) (text : String) : List (String × String) :=
  let bound := (statements 1 (Text.unixLines text.toList)).foldl (fun bound (_, s) =>
    match s with
    | .binding name value =>
      let find (n : String) : Option String :=
        match known n with
        | some v => some v
        | none => (bound.lookup n).map (·.getD "")
      bind bound (String.ofList name) (value.map fun v => String.ofList (resolved find v))
    | _ => bound) []
  bound.filterMap fun (name, value) => value.map (name, ·)

/-- The numbers of the lines from which something else than a statement is found. -/
def faults (text : String) : List Nat :=
  (statements 1 (Text.unixLines text.toList)).filterMap fun (line, s) =>
    if s = .fault then some line else none

end FlagLogic.VariableFile
