import FlagLogic.Text.CaseTable

/-!
Letter case of whole texts. Keywords are recognised by comparing the upper case of a word with the
keyword, so any spelling with that upper case counts, also one outside ASCII: `falſe` with a long s
has the upper case `FALSE`.
-/

namespace FlagLogic.Text

/-- The character of the runs that `n` belongs to, moved; `c` itself where no run holds it. -/
private def moved (runs : List CaseRun) (c : Char) : Char :=
  match runs.find? (·.holds c.toNat) with
  | some r => Char.ofNat (c.toNat + r.shift).toNat
  | none => c

/-- The upper case of one character, which may be longer than one character. -/
def upperChar (c : Char) : List Char :=
  if c.toNat < 128 then [c.toUpper]
  else match upperSpecials.lookup c.toNat with
    | some cs => cs
    | none => [moved upperRuns c]

/-- The lower case of one character, which may be longer than one character. -/
def lowerChar (c : Char) : List Char :=
  if c.toNat < 128 then [c.toLower]
  else match lowerSpecials.lookup c.toNat with
    | some cs => cs
    | none => [moved lowerRuns c]

/-- The upper case of a text. -/
def upper (cs : List Char) : List Char := cs.flatMap upperChar

/-- The lower case of a text. -/
def lower (cs : List Char) : List Char := cs.flatMap lowerChar

/-- `upper` on strings. -/
def uppercased (s : String) : String := String.ofList (upper s.toList)

/-- `lower` on strings. -/
def lowercased (s : String) : String := String.ofList (lower s.toList)

@[simp] theorem upper_cons (c : Char) (cs : List Char) :
    upper (c :: cs) = upperChar c ++ upper cs := rfl

@[simp] theorem upper_append (cs ds : List Char) : upper (cs ++ ds) = upper cs ++ upper ds := by
  simp [upper]

end FlagLogic.Text
