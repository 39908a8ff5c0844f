import FlagLogic.Formula.Walk

/-!
Whole formulas, their values and their settings. A formula is whole if no operand of it is missing
and nothing foreign stands in it; it then has a truth value for every assignment to its settings.
Main statement: `settings`, which walks through a formula with a list of pending parts, notes the
names of the leaves from left to right, each one only once (`settings_eq_foldl`), so that a name is a
setting of the formula exactly if some leaf has it (`mem_settings`).
-/

namespace FlagLogic.Formula

/-- The formula is put together from literals, settings, negations and connectives, each operator
with all its operands. -/
def Whole : Formula → Prop
  | literal _ | setting _ => True
  | not x => x.Whole
  | binary _ l r => l.Whole ∧ r.Whole
  | hole | foreign .. => False

instance decidableWhole : (f : Formula) → Decidable f.Whole
  | literal _ | setting _ => isTrue trivial
  | not x => decidableWhole x
  | binary _ l r =>
    have := decidableWhole l
    have := decidableWhole r
    inferInstanceAs (Decidable (_ ∧ _))
  | hole | foreign .. => isFalse id

theorem Whole.ne_hole {f : Formula} (h : f.Whole) : f ≠ hole := by
  rintro rfl
  exact h

/-- The truth value of a whole formula where the settings have these values. -/
def value (v : String → Bool) : Formula → Bool
  | literal b => b
  | setting name => v name
  | not x => !x.value v
  | binary .and l r => l.value v && r.value v
  | binary .or l r => l.value v || r.value v
  | hole | foreign .. => false

/-! ## Settings and leaves -/

/-- Notes a name, unless it has been noted before. -/
def noted (seen : List String) (name : String) : List String :=
  if name ∈ seen then seen else seen ++ [name]

theorem mem_noted {seen : List String} {name x : String} :
    x ∈ noted seen name ↔ x ∈ seen ∨ x = name := by
  unfold noted
  by_cases h : name ∈ seen
  · simp only [h, if_true]
    constructor
    · intro hx
      exact .inl hx
    · rintro (hx | rfl)
      · exact hx
      · exact h
  · simp [h]

theorem mem_foldl_noted {names seen : List String} {x : String} :
    x ∈ names.foldl noted seen ↔ x ∈ seen ∨ x ∈ names := by
  induction names generalizing seen with
  | nil => simp
  | cons name names ih => simp [ih, mem_noted, or_assoc]

/-- The walk notes the leaves of what is pending, from left to right. -/
theorem gather_eq_foldl (seen : List String) (fs : List Formula) :
    gather seen fs = (fs.flatMap leaves).foldl noted seen := by
  fun_induction gather seen fs with
  | case1 => rfl
  | case2 _ _ _ ih | case3 _ _ _ ih | case4 _ _ _ _ _ ih | case5 _ _ _ ih | case6 _ _ ih
  | case7 _ _ _ _ ih => simpa [leaves, noted] using ih

theorem settings_eq_foldl (f : Formula) : f.settings = f.leaves.foldl noted [] := by
  simp [settings, gather_eq_foldl]

/-- The settings of a formula are the names of its leaves. -/
theorem mem_settings {f : Formula} {name : String} : name ∈ f.settings ↔ name ∈ f.leaves := by
  simp [settings_eq_foldl, mem_foldl_noted]

end FlagLogic.Formula
