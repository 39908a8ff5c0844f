import FlagLogic.Config
import FlagLogic.Text.Blank

/-!
Reading data leniently: numbers and words that spell a truth value, and texts that spell an integer,
count as that value. What does not fit is refused with the reason.
-/

namespace FlagLogic

/-- Why a value does not fit where it stands. -/
inductive Misfit where
  /-- The value is of a kind that has no truth value. -/
  | notBoolean
  /-- The number or text spells no truth value. -/
  | unclearBoolean
  /-- The value is of a kind that is no integer. -/
  | notInteger
  /-- The text spells no integer. -/
  | unclearInteger
  /-- The number has a fractional part. -/
  | fraction
  /-- The number is infinite or not a number. -/
  | notFinite
  /-- The number is integral but beyond the range of machine integers. -/
  | oversized
  | below (bound : Int)
  | above (bound : Int)
  | notPolicy
  | notVerbosity
  | notMap
  /-- A part of the configuration of this name is not a map. -/
  | notPart (name : String)
  /-- A key is not a text. -/
  | notText
  deriving DecidableEq, Repr

/-- The reason in words. -/
def Misfit.message : Misfit → String
  | notBoolean => "Input should be a valid boolean"
  | unclearBoolean => "Input should be a valid boolean, unable to interpret input"
  | notInteger => "Input should be a valid integer"
  | unclearInteger => "Input should be a valid integer, unable to parse string as an integer"
  | fraction => "Input should be a valid integer, got a number with a fractional part"
  | notFinite => "Input should be a finite number"
  | oversized => "Unable to parse input string as an integer, exceeded maximum size"
  | below bound => "Input should be greater than or equal to " ++ toString bound
  | above bound => "Input should be less than or equal to " ++ toString bound
  | notPolicy => "Input should be 'false' or 'error'"
  | notVerbosity => "Input should be 'error', 'warning', 'info' or 'debug'"
  | notMap => "Input should be a valid dictionary"
  | notPart name => "Input should be a valid dictionary or instance of " ++ name
  | notText => "Input should be a valid string"

namespace Coercion

/-! ## Truth values -/

/-- The words that spell truth values. -/
def boolWords : List (String × Bool) := [
  ("0", false), ("off", false), ("f", false), ("false", false), ("n", false), ("no", false),
  ("1", true), ("on", true), ("t", true), ("true", true), ("y", true), ("yes", true)]

/-- The truth value that a word spells, in any mixture of ASCII capitals and small letters. -/
def boolOfText (s : String) : Except Misfit Bool :=
  match boolWords.lookup (String.ofList (s.toList.map Char.toLower)) with
  | some b => .ok b
  | none => .error .unclearBoolean

/-- The first number that is too large for an integer of 64 bits, `2 ^ 63`. -/
def wordLimit : Int := 9223372036854775808

/-- The integer that a floating-point number is equal to. Only numbers strictly between `-2 ^ 63` and
`2 ^ 63` count. -/
def integerOfFloat (x : Binary64) : Except Misfit Int :=
  match x.toInt? with
  | some i => if -wordLimit < i ∧ i < wordLimit then .ok i else .error .oversized
  | none =>
    match x with
    | .finite .. => .error .fraction
    | _ => .error .notFinite

/-- The truth value that a value stands for. Of the numbers, zero is false and one is true; integers
that do not fit into 64 bits are not looked at. -/
def bool : Value → Except Misfit Bool
  | .bool b => .ok b
  | .int i => if -wordLimit ≤ i ∧ i < wordLimit then ofInt i else .error .notBoolean
  | .float x =>
    match integerOfFloat x with
    | .ok i => ofInt i
    | .error _ => .error .notBoolean
  | .text s => boolOfText s
  | _ => .error .notBoolean
where
  /-- The truth value that an integer stands for. -/
  ofInt (i : Int) : Except Misfit Bool :=
    if i = 0 then .ok false else if i = 1 then .ok true else .error .unclearBoolean

/-! ## Integers -/

/-- Drops the white space at both ends. The separators U+001C to U+001F do not count here. -/
def trimmed (cs : List Char) : List Char :=
  let blank (c : Char) := Text.isBlank c && !(28 ≤ c.toNat && c.toNat ≤ 31)
  ((cs.dropWhile blank).reverse.dropWhile blank).reverse

/-- The number that digits spell after the number `n`; single underscores may stand between them. -/
def digits? (n : Nat) : List Char → Option Nat
  | [] => none
  | [c] => if c.isDigit then some (10 * n + (c.toNat - '0'.toNat)) else none
  | c :: '_' :: cs => if c.isDigit then digits? (10 * n + (c.toNat - '0'.toNat)) cs else none
  | c :: cs => if c.isDigit then digits? (10 * n + (c.toNat - '0'.toNat)) cs else none

/-- The integer that a text spells: a sign, digits, and a fraction of zeros, with white space around
them. -/
def integerText? (s : String) : Option Int :=
  let (negative, cs) := match trimmed s.toList with
    | '-' :: cs => (true, cs)
    | '+' :: cs => (false, cs)
    | cs => (false, cs)
  let whole := cs.takeWhile (· != '.')
  if (cs.drop (whole.length + 1)).all (· == '0') then
    (digits? 0 whole).map fun n => if negative then -n else n
  else none

/-- The integer that a value stands for. -/
def integer : Value → Except Misfit Int
  | .bool b => .ok (if b then 1 else 0)
  | .int i => .ok i
  | .float x => integerOfFloat x
  | .text s =>
    match integerText? s with
    | some i => .ok i
    | none => .error .unclearInteger
  | _ => .error .notInteger

/-- The integer that a value stands for, if it is within the bounds. -/
def bounded (low high : Int) (v : Value) : Except Misfit Int := do
  let i ← integer v
  if i < low then throw (.below low)
  if i > high then throw (.above high)
  return i

/-! ## Names -/

/-- The policy that a value names. -/
def policy (v : Value) : Except Misfit Missing :=
  match v with
  | .text s => ((Missing.ofName? s).map .ok).getD (.error .notPolicy)
  | _ => .error .notPolicy

/-- The verbosity that a value names. -/
def verbosity (v : Value) : Except Misfit Verbosity :=
  match v with
  | .text s => ((Verbosity.ofName? s).map .ok).getD (.error .notVerbosity)
  | _ => .error .notVerbosity

end Coercion

end FlagLogic
