/-!
Tokens of flag expressions. A token is a lexeme with the offset of its first character in the text,
counted in characters. Texts produce names, literals, connectives, negations and parentheses; a
token of an unknown kind can only be made by hand.
-/

namespace FlagLogic

/-- The two binary connectives. They have equal precedence. -/
inductive Connective where
  | and
  | or
  deriving DecidableEq, Repr

/-- The spelling of a connective in canonical text. -/
def Connective.keyword : Connective → String
  | .and => "AND"
  | .or => "OR"

/-- The spelling of negation, which is always fused to an opening parenthesis. -/
def negationKeyword : String := "NOT"

/-- The spelling of a truth value in canonical text. -/
def literalKeyword : Bool → String
  | true => "TRUE"
  | false => "FALSE"

/-- The lexical units of expressions. -/
inductive Lexeme where
  /-- A setting name, without blanks at its ends. -/
  | name (text : String)
  /-- A truth value, with its spelling in the text. -/
  | literal (value : Bool) (spelling : String)
  | connective (c : Connective)
  | negation
  | opening
  | closing
  /-- A unit of a kind that no expression text has. -/
  | unknown (kind : String)
  deriving DecidableEq, Repr

/-- A lexeme at an offset of the text. -/
structure Token where
  lexeme : Lexeme
  position : Nat
  deriving DecidableEq, Repr

namespace Lexeme

/-- The name of the lexeme's kind. -/
def kind : Lexeme → String
  | name _ => "name"
  | literal true _ => "true"
  | literal false _ => "false"
  | connective .and => "and"
  | connective .or => "or"
  | negation => "not"
  | opening => "open"
  | closing => "close"
  | unknown kind => kind

/-- The kinds that have one spelling each. -/
def keywordKinds : List (String × String) := [
  ("and", "AND"), ("or", "OR"), ("not", "NOT"), ("open", "("), ("close", ")"),
  ("true", "TRUE"), ("false", "FALSE")]

/-- The canonical spelling of the lexeme. A unit of an unknown kind is spelled like the keyword kind
of that name, and has no spelling if there is none. -/
def text? : Lexeme → Option String
  | name text => some text
  | literal value _ => some (literalKeyword value)
  | connective c => some c.keyword
  | negation => some negationKeyword
  | opening => some "("
  | closing => some ")"
  | unknown kind => keywordKinds.lookup kind

/-- The text that the lexeme carries: a setting name, or a literal as it was spelled. -/
def value? : Lexeme → Option String
  | name text => some text
  | literal _ spelling => some spelling
  | _ => none

end Lexeme

/-- The tokens' spellings with one space between; the kind of the first token without a spelling, if
there is one. -/
def Token.source (tokens : List Token) : Except String String := do
  let texts ← tokens.mapM fun t =>
    match t.lexeme.text? with
    | some text => .ok text
    | none => .error t.lexeme.kind
  return " ".intercalate texts

end FlagLogic
