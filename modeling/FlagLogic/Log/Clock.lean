import FlagLogic.Log

/-!
Times in words, from a count of nanoseconds since the start of 1970.
-/

namespace FlagLogic.Log

/-- A day of the calendar. -/
structure Day where
  year : Nat
  month : Nat
  day : Nat
  deriving DecidableEq, Repr

/-- The day that is so many days after the first of January 1970. Years are counted from March on, so
that the leap day is the last of its year; 400 such years have 146097 days. -/
def Day.ofCount (count : Nat) : Day :=
  let days := count + 719468
  let era := days / 146097
  let inEra := days % 146097
  let yearInEra := (inEra - inEra / 1460 + inEra / 36524 - inEra / 146096) / 365
  let inYear := inEra - (365 * yearInEra + yearInEra / 4 - yearInEra / 100)
  let monthInYear := (5 * inYear + 2) / 153
  { year := 400 * era + yearInEra + if monthInYear < 10 then 0 else 1
    month := if monthInYear < 10 then monthInYear + 3 else monthInYear - 9
    day := inYear - (153 * monthInYear + 2) / 5 + 1 }

/-- A number with zeros in front. -/
def digits (width n : Nat) : String :=
  let s := toString n
  String.ofList (List.replicate (width - s.length) '0') ++ s

/-- The times of a moment; the clock of the place shows universal time. -/
def Clock.ofNanoseconds (count : Nat) : Clock :=
  let seconds := count / 1000000000
  let day := Day.ofCount (seconds / 86400)
  let date := digits 4 day.year ++ "-" ++ digits 2 day.month ++ "-" ++ digits 2 day.day
  let time := digits 2 (seconds / 3600 % 24) ++ ":" ++ digits 2 (seconds / 60 % 60) ++ ":"
    ++ digits 2 (seconds % 60)
  { universal := date ++ "T" ++ time ++ "." ++ digits 6 (count / 1000 % 1000000) ++ "Z"
    wall := date ++ " " ++ time }

example : Day.ofCount 0 = ⟨1970, 1, 1⟩ ∧ Day.ofCount 11016 = ⟨2000, 2, 29⟩
    ∧ Day.ofCount 19782 = ⟨2024, 2, 29⟩ ∧ Day.ofCount 19783 = ⟨2024, 3, 1⟩ := by decide

end FlagLogic.Log
