/-!
Cutting texts at single characters.
-/

namespace FlagLogic.Text

/-- The pieces of a text between the characters that satisfy `p`; always one more than there are
such characters. -/
def pieces (p : Char → Bool) : List Char → List (List Char)
  | [] => [[]]
  | c :: cs =>
    if p c then [] :: pieces p cs
    else
      match pieces p cs with
      | piece :: rest => (c :: piece) :: rest
      | [] => [[c]]

/-- The text before the first `c` and the text after it. -/
def splitFirst (c : Char) : List Char → Option (List Char × List Char)
  | [] => none
  | d :: ds => if d == c then some ([], ds) else (splitFirst c ds).map fun (a, b) => (d :: a, b)

/-- The text before the last `c` and the text after it. -/
def splitLast (c : Char) : List Char → Option (List Char × List Char)
  | [] => none
  | d :: ds =>
    match splitLast c ds with
    | some (a, b) => some (d :: a, b)
    | none => if d == c then some ([], ds) else none

/-- A text with every line end written as a single line feed. -/
def unixLines : List Char → List Char
  | [] => []
  | '\r' :: '\n' :: cs => '\n' :: unixLines cs
  | c :: cs => (if c == '\r' then '\n' else c) :: unixLines cs

theorem pieces_ne_nil (p : Char → Bool) (cs : List Char) : pieces p cs ≠ [] := by
  cases cs with
  | nil => simp [pieces]
  | cons c cs =>
    unfold pieces
    split
    · simp
    · split <;> simp

/-- There is a last `c` exactly if the text holds one. -/
theorem splitLast_eq_none_iff {c : Char} {cs : List Char} : splitLast c cs = none ↔ c ∉ cs := by
  induction cs with
  | nil => simp [splitLast]
  | cons d ds ih =>
    unfold splitLast
    split
    · next a b h =>
      have hmem : c ∈ ds := Decidable.not_not.mp fun hn => by simp [ih.mpr hn] at h
      simp [hmem]
    · next h =>
      have hn := ih.mp h
      by_cases hd : d = c
      · simp [hd]
      · simp [hd, hn, Ne.symm hd]

/-- A `c` with no further one behind it is the last one. -/
theorem splitLast_append {c : Char} {b : List Char} (h : c ∉ b) (a : List Char) :
    splitLast c (a ++ c :: b) = some (a, b) := by
  induction a with
  | nil => simp [splitLast, splitLast_eq_none_iff.mpr h]
  | cons d a ih => rw [List.cons_append, splitLast, ih]

end FlagLogic.Text
