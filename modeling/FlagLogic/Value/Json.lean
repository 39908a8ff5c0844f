import FlagLogic.Value

/-!
JSON: reading a text into a value and writing a value as a text. Writing uses ASCII only; characters
beyond it become escapes of 16-bit units in lower-case hexadecimal, and values that the format does
not have become strings of what is shown for them. Reading also takes the numbers `NaN`, `Infinity` and
`-Infinity`, but no integer of more than 4300 digits; of a key that is repeated the last value counts.
-/

namespace FlagLogic.Json

/-! ## Writing -/

/-- One escape per 16-bit unit of the character. -/
def unitEscape (c : Char) : List Char :=
  let n := c.toNat
  let unit (u : Nat) := '\\' :: 'u' :: Text.hexDigits 4 u
  if n < 0x10000 then unit n
  else unit (0xD800 + (n - 0x10000) / 0x400) ++ unit (0xDC00 + (n - 0x10000) % 0x400)

/-- One character inside a string. -/
def escaped (c : Char) : List Char :=
  if c == '"' || c == '\\' then ['\\', c]
  else if c == '\n' then ['\\', 'n']
  else if c == '\r' then ['\\', 'r']
  else if c == '\t' then ['\\', 't']
  else if c == '\x08' then ['\\', 'b']
  else if c == '\x0c' then ['\\', 'f']
  else if 0x20 ≤ c.toNat && c.toNat < 0x7F then [c]
  else unitEscape c

/-- A text as a JSON string. -/
def string (s : String) : String :=
  String.ofList ('"' :: s.toList.flatMap escaped ++ ['"'])

/-- The spelling of a floating-point number. -/
def number : Binary64 → String
  | .nan => "NaN"
  | .infinite false => "Infinity"
  | .infinite true => "-Infinity"
  | x => x.text

/-- The name that a key has in an object. -/
def keyText : Value → String
  | .null => "null"
  | .bool b => if b then "true" else "false"
  | .int i => toString i
  | .float x => number x
  | .text s => s
  | v => v.shown

mutual

/-- A value on one line, with a space after each comma and colon. -/
def compact : Value → String
  | .null => "null"
  | .bool b => if b then "true" else "false"
  | .int i => toString i
  | .float x => number x
  | .text s => string s
  | .list items => "[" ++ ", ".intercalate (compactItems items) ++ "]"
  | .map entries => "\x7b" ++ ", ".intercalate (compactEntries entries) ++ "\x7d"
  | .other _ shown _ => string shown

private def compactItems : List Value → List String
  | [] => []
  | v :: rest => compact v :: compactItems rest

private def compactEntries : List (Value × Value) → List String
  | [] => []
  | (k, v) :: rest => (string (keyText k) ++ ": " ++ compact v) :: compactEntries rest

end

/-- The line break before an item at a depth. -/
private def newline (depth : Nat) : String := "\n" ++ String.ofList (List.replicate (2 * depth) ' ')

mutual

/-- A value with each item on a line of its own, indented by two spaces for each level around it. -/
def indented (depth : Nat) : Value → String
  | .null => "null"
  | .bool b => if b then "true" else "false"
  | .int i => toString i
  | .float x => number x
  | .text s => string s
  | .list [] => "[]"
  | .list (v :: rest) =>
    "[" ++ newline (depth + 1) ++ indented (depth + 1) v ++ indentedItems depth rest
      ++ newline depth ++ "]"
  | .map [] => "\x7b\x7d"
  | .map ((k, v) :: rest) =>
    "\x7b" ++ newline (depth + 1) ++ string (keyText k) ++ ": " ++ indented (depth + 1) v
      ++ indentedEntries depth rest ++ newline depth ++ "\x7d"
  | .other _ shown _ => string shown

private def indentedItems (depth : Nat) : List Value → String
  | [] => ""
  | v :: rest => "," ++ newline (depth + 1) ++ indented (depth + 1) v ++ indentedItems depth rest

private def indentedEntries (depth : Nat) : List (Value × Value) → String
  | [] => ""
  | (k, v) :: rest =>
    "," ++ newline (depth + 1) ++ string (keyText k) ++ ": " ++ indented (depth + 1) v
      ++ indentedEntries depth rest

end

/-- A value as an indented document. -/
def pretty (v : Value) : String := indented 0 v

/-! ## Reading -/

/-- Drops white space of the format. -/
def skipBlanks (cs : List Char) : List Char :=
  cs.dropWhile fun c => c == ' ' || c == '\t' || c == '\n' || c == '\r'

/-- The value of a hexadecimal digit. -/
def hexDigit? (c : Char) : Option Nat :=
  if '0' ≤ c && c ≤ '9' then some (c.toNat - '0'.toNat)
  else if 'a' ≤ c && c ≤ 'f' then some (c.toNat - 'a'.toNat + 10)
  else if 'A' ≤ c && c ≤ 'F' then some (c.toNat - 'A'.toNat + 10)
  else none

/-- The number that hexadecimal digits spell. -/
def hexNumber? (cs : List Char) : Option Nat :=
  cs.foldlM (fun n c => (hexDigit? c).map (16 * n + ·)) 0

/-- The value of a text of decimal digits. -/
def decimal (cs : List Char) : Nat :=
  cs.foldl (fun n c => 10 * n + (c.toNat - '0'.toNat)) 0

/-- The text of a string up to its closing quote, and what follows the quote. -/
def stringBody (acc : List Char) : List Char → Option (String × List Char)
  | [] => none
  | '"' :: rest => some (String.ofList acc.reverse, rest)
  | '\\' :: 'u' :: a :: b :: c :: d :: '\\' :: 'u' :: e :: f :: g :: h :: rest =>
    match hexNumber? [a, b, c, d], hexNumber? [e, f, g, h] with
    | some high, some low =>
      if 0xD800 ≤ high && high < 0xDC00 && 0xDC00 ≤ low && low < 0xE000 then
        let n := 0x10000 + (high - 0xD800) * 0x400 + (low - 0xDC00)
        stringBody (Char.ofNat n :: acc) rest
      else stringBody (Char.ofNat high :: acc) ('\\' :: 'u' :: e :: f :: g :: h :: rest)
    | _, _ => none
  | '\\' :: 'u' :: a :: b :: c :: d :: rest =>
    match hexNumber? [a, b, c, d] with
    | some n => stringBody (Char.ofNat n :: acc) rest
    | none => none
  | '\\' :: c :: rest =>
    match [('"', '"'), ('\\', '\\'), ('/', '/'), ('b', '\x08'), ('f', '\x0c'), ('n', '\n'),
        ('r', '\r'), ('t', '\t')].lookup c with
    | some plain => stringBody (plain :: acc) rest
    | none => none
  | c :: rest => if c.toNat < 0x20 then none else stringBody (c :: acc) rest

/-- The digits of an exponent, with their sign, if there is one. -/
private def exponentPart (cs : List Char) : Option (Int × List Char) :=
  match cs with
  | e :: rest =>
    if e == 'e' || e == 'E' then
      let (negative, rest) := match rest with
        | '-' :: rest => (true, rest)
        | '+' :: rest => (false, rest)
        | rest => (false, rest)
      let digits := rest.takeWhile Char.isDigit
      if digits.isEmpty then none
      else
        let n : Int := decimal digits
        some (if negative then -n else n, rest.dropWhile Char.isDigit)
    else none
  | [] => none

/-- The most digits that an integer may have. -/
def digitLimit : Nat := 4300

/-- A number and what follows it. -/
def number? (cs : List Char) : Option (Value × List Char) :=
  let (negative, cs) := match cs with
    | '-' :: rest => (true, rest)
    | cs => (false, cs)
  let whole := match cs with
    | '0' :: _ => ['0']
    | cs => cs.takeWhile Char.isDigit
  if whole.isEmpty then
    if "Infinity".toList.isPrefixOf cs then some (.float (.infinite negative), cs.drop 8) else none
  else
    let cs := cs.drop whole.length
    let fraction := match cs with
      | '.' :: rest => rest.takeWhile Char.isDigit
      | _ => []
    let cs := if fraction.isEmpty then cs else cs.drop (fraction.length + 1)
    match exponentPart cs, fraction with
    | none, [] =>
      let n : Int := decimal whole
      if whole.length ≤ digitLimit then some (.int (if negative then -n else n), cs) else none
    | part, fraction =>
      let (e, cs) := part.getD (0, cs)
      some (.float (Binary64.ofDecimal negative (decimal (whole ++ fraction)) (e - fraction.length)),
        cs)

/-- A value that starts at the first character. `fuel` bounds the number of values and separators
that are read. -/
def read (fuel : Nat) (cs : List Char) : Option (Value × List Char) :=
  match fuel with
  | 0 => none
  | fuel + 1 =>
    match cs with
    | '"' :: rest => (stringBody [] rest).map fun (s, rest) => (.text s, rest)
    | '[' :: rest =>
      match skipBlanks rest with
      | ']' :: rest => some (.list [], rest)
      | rest => items fuel [] rest
    | '\x7b' :: rest =>
      match skipBlanks rest with
      | '\x7d' :: rest => some (.map [], rest)
      | rest => entries fuel [] rest
    | cs =>
      if "null".toList.isPrefixOf cs then some (.null, cs.drop 4)
      else if "true".toList.isPrefixOf cs then some (.bool true, cs.drop 4)
      else if "false".toList.isPrefixOf cs then some (.bool false, cs.drop 5)
      else if "NaN".toList.isPrefixOf cs then some (.float .nan, cs.drop 3)
      else number? cs
where
  /-- The rest of a list, from its next item on. -/
  items (fuel : Nat) (acc : List Value) (cs : List Char) : Option (Value × List Char) :=
    match fuel with
    | 0 => none
    | fuel + 1 => do
      let (v, rest) ← read fuel cs
      match skipBlanks rest with
      | ',' :: rest => items fuel (v :: acc) (skipBlanks rest)
      | ']' :: rest => some (.list (v :: acc).reverse, rest)
      | _ => none
  /-- The rest of an object, from its next key on. -/
  entries (fuel : Nat) (acc : List (Value × Value)) (cs : List Char) :
      Option (Value × List Char) :=
    match fuel with
    | 0 => none
    | fuel + 1 => do
      match cs with
      | '"' :: rest =>
        let (key, rest) ← stringBody [] rest
        match skipBlanks rest with
        | ':' :: rest =>
          let (v, rest) ← read fuel (skipBlanks rest)
          let acc := Value.put acc (.text key) v
          match skipBlanks rest with
          | ',' :: rest => entries fuel acc (skipBlanks rest)
          | '\x7d' :: rest => some (.map acc, rest)
          | _ => none
        | _ => none
      | _ => none

/-- The value that a whole text spells. -/
def parse? (text : String) : Option Value := do
  let cs := text.toList
  let (v, rest) ← read (2 * cs.length + 2) (skipBlanks cs)
  if (skipBlanks rest).isEmpty then some v else none

end FlagLogic.Json
