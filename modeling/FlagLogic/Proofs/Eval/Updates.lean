import FlagLogic.Proofs.Eval.Agreement

/-!
Environments that are given further values. Main statement: what an environment says about a setting
after a list of settings has been given values, one after the other, is the last value that the list
gives it, or else what the environment said before (`value?_setAll`).
-/

namespace FlagLogic

theorem lookup_cons_eq_ite {α β : Type} [DecidableEq α] (k : α) (e : α × β) (entries : List (α × β)) :
    (e :: entries).lookup k = if k = e.1 then some e.2 else entries.lookup k := by
  obtain ⟨l, v⟩ := e
  rw [List.lookup_cons]
  by_cases h : k = l
  · simp [h]
  · simp [h, beq_eq_false_iff_ne.mpr h]

namespace Environment

/-- The value that the environment gives a setting, if it gives one. -/
def value? (env : Environment) (name : String) : Option Bool :=
  match env with
  | mapping entries => entries.lookup (.name name)
  | host answer => answer name

theorem worth_of_value? {env : Environment} {name : String} {b : Bool} (h : env.value? name = some b)
    (missing : Missing) (root : Formula) : env.worth missing root name = .ok b := by
  cases env with
  | mapping entries =>
    have hlookup : entries.lookup (.name name) = some b := h
    simp [worth, hlookup]
  | host answer =>
    have hanswer : answer name = some b := h
    simp [worth, hanswer]

/-! ## One value -/

/-- Replacing the values under a key changes what is found there, and nothing else. -/
theorem lookup_replaced (k : Key) (b : Bool) (entries : List (Key × Bool)) (l : Key) :
    (entries.map fun e => if e.1 == k then (e.1, b) else e).lookup l =
      if l = k then (entries.lookup k).map fun _ => b else entries.lookup l := by
  induction entries with
  | nil => simp
  | cons e entries ih =>
    rw [List.map_cons, lookup_cons_eq_ite, lookup_cons_eq_ite, lookup_cons_eq_ite, ih]
    by_cases hek : e.1 = k
    · by_cases hlk : l = k <;> simp [hek, hlk]
    · by_cases hlk : l = k
      · simp [hek, hlk, Ne.symm hek]
      · simp [hek, hlk]

/-- Giving a setting a value changes nothing about the others. -/
theorem value?_set (env : Environment) (name : String) (b : Bool) (m : String) :
    (env.set name b).value? m = if m = name then some b else env.value? m := by
  cases env with
  | mapping entries =>
    simp only [set]
    split
    · next hany =>
      obtain ⟨e, he, hkey⟩ := List.any_eq_true.mp hany
      obtain ⟨old, hold⟩ : ∃ old, entries.lookup (.name name) = some old := by
        refine Option.ne_none_iff_exists'.mp fun hnone => ?_
        have hne := List.lookup_eq_none_iff.mp hnone e he
        simp [beq_iff_eq.mp hkey] at hne
      simp only [value?, lookup_replaced, hold, Key.name.injEq, Option.map_some]
    · next hany =>
      have hnone : entries.lookup (.name name) = none := by
        refine List.lookup_eq_none_iff.mpr fun e he => ?_
        have hne : e.1 ≠ .name name := fun hkey =>
          hany (List.any_eq_true.mpr ⟨e, he, beq_iff_eq.mpr hkey⟩)
        simpa using hne.symm
      simp only [value?, List.lookup_append, lookup_cons_eq_ite, Key.name.injEq]
      by_cases hm : m = name <;> simp [hm, hnone]
  | host answer => rfl

/-! ## Many values -/

/-- The environment after the settings have been given values, one after the other. -/
def setAll (env : Environment) (values : List (String × Bool)) : Environment :=
  values.foldl (fun env (name, b) => env.set name b) env

/-- The last value counts. -/
theorem value?_setAll (values : List (String × Bool)) (env : Environment) (m : String) :
    (env.setAll values).value? m = (values.reverse.lookup m).or (env.value? m) := by
  induction values generalizing env with
  | nil => rfl
  | cons p values ih =>
    have hfirst : (env.set p.1 p.2).value? m = ([p].lookup m).or (env.value? m) := by
      rw [value?_set, lookup_cons_eq_ite]
      by_cases h : m = p.1 <;> simp [h]
    calc (env.setAll (p :: values)).value? m
        = ((env.set p.1 p.2).setAll values).value? m := rfl
      _ = (values.reverse.lookup m).or ((env.set p.1 p.2).value? m) := ih ..
      _ = ((p :: values).reverse.lookup m).or (env.value? m) := by
          rw [hfirst, List.reverse_cons, List.lookup_append, Option.or_assoc]

end Environment

end FlagLogic
