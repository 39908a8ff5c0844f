/-!
White space. A text is stripped by dropping the blanks at both ends; a *word* is a run of characters
that are neither blanks nor parentheses.
-/

namespace FlagLogic.Text

/-- White space: the ASCII blanks with the four separators U+001C to U+001F, and the blanks of
Unicode. The zero-width marks U+200B and U+FEFF are not blank. -/
def isBlank (c : Char) : Bool :=
  let n := c.toNat
  (9 ≤ n && n ≤ 13) || (28 ≤ n && n ≤ 32) || n == 0x85 || n == 0xA0 || n == 0x1680
    || (0x2000 ≤ n && n ≤ 0x200A) || n == 0x2028 || n == 0x2029 || n == 0x202F || n == 0x205F
    || n == 0x3000

/-- A parenthesis of either side. -/
def isParen (c : Char) : Bool := c == '(' || c == ')'

/-- A character of a word. -/
def isWordChar (c : Char) : Bool := !isBlank c && !isParen c

/-- Drops the blanks at the end. -/
def trimEnd (cs : List Char) : List Char := (cs.reverse.dropWhile isBlank).reverse

/-- Drops the blanks at both ends. -/
def strip (cs : List Char) : List Char := trimEnd (cs.dropWhile isBlank)

/-- The number of blanks before the first other character. -/
def leadingBlanks (cs : List Char) : Nat := (cs.takeWhile isBlank).length

/-- `strip` on strings. -/
def stripped (s : String) : String := String.ofList (strip s.toList)

end FlagLogic.Text
