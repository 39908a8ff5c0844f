import FlagLogic.Error
import FlagLogic.Text.Blank
import FlagLogic.Text.Case

/-!
From text to tokens. The text falls into lumps: parentheses, gaps of blanks, and words. Parentheses
always end a piece of text; so does a word that spells a connective and has a gap right before it.
What stands between two such ends is one name or literal, however many words it has; only a piece
that ends in `NOT` right before an opening parenthesis is a negation, and nothing else may stand in
such a piece.
-/

namespace FlagLogic

open Text

/-- A maximal stretch of text of one sort; each parenthesis stands alone. -/
inductive Lump where
  | opening
  | closing
  | gap (blanks : List Char)
  | word (letters : List Char)
  deriving DecidableEq, Repr

namespace Lump

/-- The text of a lump. -/
def chars : Lump → List Char
  | opening => ['(']
  | closing => [')']
  | gap cs => cs
  | word cs => cs

/-- Puts one character in front of a text that is cut into lumps. -/
def push (c : Char) (lumps : List Lump) : List Lump :=
  if c = '(' then opening :: lumps
  else if c = ')' then closing :: lumps
  else if isBlank c then
    match lumps with
    | gap cs :: rest => gap (c :: cs) :: rest
    | lumps => gap [c] :: lumps
  else
    match lumps with
    | word cs :: rest => word (c :: cs) :: rest
    | lumps => word [c] :: lumps

/-- Cuts a text into lumps. -/
def ofChars (cs : List Char) : List Lump := cs.foldr push []

end Lump

/-- The connective that a word spells, in letters of any case. -/
def Connective.ofWord? (cs : List Char) : Option Connective :=
  if upper cs = "AND".toList then some .and
  else if upper cs = "OR".toList then some .or
  else none

/-- The literal that a text spells, in letters of any case. -/
def literalOfText? (cs : List Char) : Option Bool :=
  if upper cs = "TRUE".toList then some true
  else if upper cs = "FALSE".toList then some false
  else none

/-- The lexeme of a text without blanks at its ends: a literal or else a name. -/
def Lexeme.ofText (cs : List Char) : Lexeme :=
  match literalOfText? cs with
  | some b => .literal b (String.ofList cs)
  | none => .name (String.ofList cs)

/-- The token of a piece of text that begins at `start`; none if the piece is blank. -/
def Token.ofPiece? (start : Nat) (piece : List Char) : Option Token :=
  if strip piece = [] then none
  else some ⟨.ofText (strip piece), start + leadingBlanks piece⟩

/-- What stands before the `NOT` that a piece ends in, if it ends in one. -/
def beforeNot? (piece : List Char) : Option (List Char) :=
  let n := piece.length - 3
  if upper (piece.drop n) = "NOT".toList then some (piece.take n) else none

/-- Reads lumps. `start` is the offset of the piece that is being read and `piece` is its text so
far; `text` is the whole text, for error reports. -/
def scan (text : String) (start : Nat) (piece : List Char) :
    List Lump → Except Error (List Token)
  | [] => .ok (Token.ofPiece? start piece).toList
  | .opening :: rest =>
    let here := start + piece.length
    match beforeNot? piece with
    | some before =>
      if strip before = [] then do
        let tokens ← scan text (here + 1) [] rest
        return ⟨.negation, start + before.length⟩ :: ⟨.opening, here⟩ :: tokens
      else
        .error (.grammar (.textBeforeNot (String.ofList (strip before))) text
          (start + leadingBlanks before))
    | none => do
      let tokens ← scan text (here + 1) [] rest
      return (Token.ofPiece? start piece).toList ++ ⟨.opening, here⟩ :: tokens
  | .closing :: rest => do
    let here := start + piece.length
    let tokens ← scan text (here + 1) [] rest
    return (Token.ofPiece? start piece).toList ++ ⟨.closing, here⟩ :: tokens
  | .gap blanks :: .word letters :: rest =>
    match Connective.ofWord? letters with
    | some c => do
      let here := start + piece.length + blanks.length
      let tokens ← scan text (here + letters.length) [] rest
      return (Token.ofPiece? start piece).toList ++ ⟨.connective c, here⟩ :: tokens
    | none => scan text start (piece ++ blanks ++ letters) rest
  | .gap blanks :: rest => scan text start (piece ++ blanks) rest
  | .word letters :: rest => scan text start (piece ++ letters) rest

/-- The tokens of a text in source order. It fails if text is fused in front of `NOT(`. -/
def tokenize (text : String) : Except Error (List Token) :=
  scan text 0 [] (Lump.ofChars text.toList)

end FlagLogic
