/-!
Fractional numbers as they occur in data: the binary floating-point numbers of 64 bits, held in
decoded form, how a decimal is rounded to one, and the fewest decimal digits that read back to one.
All of it is exact integer arithmetic.
-/

namespace FlagLogic

/-- A floating-point number of 64 bits. A finite one is `mantissa · 2 ^ exponent` with a mantissa
below `2 ^ 53` and the least exponent that `-1074` and the mantissa's size allow. -/
inductive Binary64 where
  | finite (negative : Bool) (mantissa : Nat) (exponent : Int)
  | infinite (negative : Bool)
  | nan
  deriving DecidableEq, Repr

namespace Binary64

/-- A power of two. -/
def twoTo (k : Nat) : Nat := Nat.pow 2 k

/-- A power of ten. -/
def tenTo (k : Nat) : Nat := Nat.pow 10 k

/-- The quotient rounded to the nearest integer, a half to the even one. -/
def roundDiv (num den : Nat) : Nat :=
  let q := num / den
  let twice := 2 * (num % den)
  if twice > den || (twice == den && q % 2 == 1) then q + 1 else q

/-- `num / den` as a multiple of `2 ^ exponent`, numerator and denominator. -/
private def scaled (num den : Nat) (exponent : Int) : Nat × Nat :=
  if exponent ≥ 0 then (num, den * twoTo exponent.toNat) else (num * twoTo (-exponent).toNat, den)

/-- The least exponent for which `num / den` has a mantissa below `2 ^ 53`, but not below `-1074`. -/
private def exponentFor (num den : Nat) : Int :=
  let guess : Int := (Nat.log2 num : Int) - (Nat.log2 den : Int) - 52
  let (n, d) := scaled num den guess
  let exact := if n / d < twoTo 52 then guess - 1 else guess
  max exact (-1074)

/-- The number nearest to `num / den`, of two equally near ones that with the even mantissa. -/
def ofRatio (negative : Bool) (num den : Nat) : Binary64 :=
  if num = 0 then .finite negative 0 0
  else
    let q := exponentFor num den
    let (n, d) := scaled num den q
    let m := roundDiv n d
    let (m, q) := if m = twoTo 53 then (twoTo 52, q + 1) else (m, q)
    if q > 971 then .infinite negative
    else if m = 0 then .finite negative 0 0
    else .finite negative m q

/-- The number nearest to `mantissa · 10 ^ exponent`. -/
def ofDecimal (negative : Bool) (mantissa : Nat) (exponent : Int) : Binary64 :=
  let digits : Int := (Nat.toDigits 10 mantissa).length
  if mantissa = 0 then .finite negative 0 0
  else if digits + exponent > 400 then .infinite negative
  else if digits + exponent < -400 then .finite negative 0 0
  else if exponent ≥ 0 then ofRatio negative (mantissa * tenTo exponent.toNat) 1
  else ofRatio negative mantissa (tenTo (-exponent).toNat)

/-- The number is zero, of either sign. -/
def isZero : Binary64 → Bool
  | finite _ 0 _ => true
  | _ => false

/-- The integer that the number is, if it is one. -/
def toInt? : Binary64 → Option Int
  | finite negative m q =>
    let signed (n : Nat) : Int := if negative then -(n : Int) else n
    if q ≥ 0 then some (signed (m * twoTo q.toNat))
    else
      let d := twoTo (-q).toNat
      if m % d = 0 then some (signed (m / d)) else none
  | _ => none

/-! ## The fewest digits that read back -/

/-- The decimals between `low / den` and `high / den` round to the number; the two ends do so iff
`closed`. The number itself is `value / den`. -/
structure Interval where
  low : Nat
  value : Nat
  high : Nat
  den : Nat
  closed : Bool

/-- The interval of reals that round to `mantissa · 2 ^ exponent`. Below a power of two the spacing
is half of what it is above. -/
def interval (mantissa : Nat) (exponent : Int) : Interval :=
  let below := if mantissa = twoTo 52 && exponent > -1074 then 1 else 2
  let up := twoTo (exponent - 2).toNat
  { low := (4 * mantissa - below) * up
    value := 4 * mantissa * up
    high := (4 * mantissa + 2) * up
    den := twoTo (2 - exponent).toNat
    closed := mantissa % 2 == 0 }

/-- `n · 10 ^ k` lies in the interval. -/
def Interval.holds (i : Interval) (n : Nat) (k : Int) : Bool :=
  let point := n * tenTo k.toNat * i.den
  let scale := tenTo (-k).toNat
  if i.closed then i.low * scale ≤ point && point ≤ i.high * scale
  else i.low * scale < point && point < i.high * scale

/-- The multiple of `10 ^ k` in the interval that is nearest to the value, of two equally near ones
the even one; none if the interval holds neither neighbour of the value. -/
def Interval.hit? (i : Interval) (k : Int) : Option Nat :=
  let num := i.value * tenTo (-k).toNat
  let den := i.den * tenTo k.toNat
  let n := num / den
  match i.holds n k, i.holds (n + 1) k with
  | true, true => some (roundDiv num den)
  | true, false => some n
  | false, true => some (n + 1)
  | false, false => none

/-- The first hit on the grids `10 ^ (steps - 343)` and finer, with its exponent. -/
def Interval.coarsest (i : Interval) : (steps : Nat) → Nat × Int
  | 0 => (0, 0)
  | steps + 1 =>
    let k : Int := (steps : Int) - 343
    match i.hit? k with
    | some n => (n, k)
    | none => i.coarsest steps

/-- The decimal `n · 10 ^ k` with the fewest digits that reads back to a positive number. -/
def shortest (mantissa : Nat) (exponent : Int) : Nat × Int :=
  (interval mantissa exponent).coarsest 653

/-- Digits with the point at `point` places from their start. Positional from `10 ^ -4` and below
`10 ^ 16`, with at least one digit on both sides of the point; otherwise one digit before the point
and a signed exponent of at least two digits. -/
def layout (digits : List Char) (point : Int) : List Char :=
  if -4 < point && point ≤ 0 then
    '0' :: '.' :: List.replicate (-point).toNat '0' ++ digits
  else if 0 < point && point ≤ 16 then
    let p := point.toNat
    if digits.length ≤ p then digits ++ List.replicate (p - digits.length) '0' ++ ['.', '0']
    else digits.take p ++ '.' :: digits.drop p
  else
    let fraction := if digits.length > 1 then '.' :: digits.drop 1 else []
    let e := point - 1
    let width := Nat.toDigits 10 e.natAbs
    let padded := if width.length < 2 then '0' :: width else width
    digits.take 1 ++ fraction ++ 'e' :: (if e < 0 then '-' else '+') :: padded

/-- The text of a number: the fewest digits that read back, laid out by `layout`. -/
def text : Binary64 → String
  | nan => "nan"
  | infinite false => "inf"
  | infinite true => "-inf"
  | finite negative 0 _ => if negative then "-0.0" else "0.0"
  | finite negative m q =>
    let (n, k) := shortest m q
    let digits := Nat.toDigits 10 n
    let body := layout digits (digits.length + k)
    String.ofList (if negative then '-' :: body else body)

end Binary64

end FlagLogic
