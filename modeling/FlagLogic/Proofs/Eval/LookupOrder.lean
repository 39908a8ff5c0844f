import FlagLogic.Proofs.Eval.Agreement
import Mathlib.Data.List.NodupEquivFin

/-!
The order of lookups. The machine that evaluates and the walk that lists settings go through a formula in
the same order, from left to right. Main statement: the settings that an evaluation looks up are some of
the leaves, each at most once and in their order, whatever the environment says and however the
evaluation ends; and all of them are listed as settings (`lookups_follow_leaves`).
-/

namespace FlagLogic

/-! ## Settings without repeats -/

namespace Formula

/-- Noting names one after the other leaves out those that are there already, and repeats. -/
theorem foldl_noted (names seen : List String) :
    names.foldl noted seen = seen ++ (names.removeAll seen).eraseDups := by
  induction names generalizing seen with
  | nil => simp
  | cons name names ih =>
    rw [List.foldl_cons, ih, List.cons_removeAll]
    by_cases h : name ∈ seen
    · simp [noted, h]
    · have hmore : names.removeAll (seen ++ [name])
          = (names.removeAll seen).filter fun x => !(x == name) := by
        unfold List.removeAll
        rw [List.filter_filter]
        refine List.filter_congr fun x _ => ?_
        simp [Bool.and_comm, beq_eq_decide]
      simp [noted, h, hmore, List.eraseDups_cons]

/-- The settings are the names of the leaves, without later repeats. -/
theorem settings_eq_eraseDups (f : Formula) : f.settings = f.leaves.eraseDups := by
  rw [settings_eq_foldl, foldl_noted, List.nil_append]
  simp [List.removeAll]

end Formula

/-! ## Lookups and leaves -/

/-- A course that goes on looks up no more than both parts of it. -/
theorem Course.sublist_andThen {course : Course} {next : Bool → Course} {names more : List String}
    (h : course.names.Sublist names) (hnext : ∀ b, (next b).names.Sublist more) :
    (course.andThen next).names.Sublist (names ++ more) := by
  rcases course with ⟨looked, e | b⟩
  · exact h.trans (List.sublist_append_left names more)
  · exact h.append (hnext b)

/-- The recursion looks up some of the leaves, in their order. -/
theorem sublist_leaves_course (env : Environment) (missing : Missing) (root f : Formula) :
    (Formula.course env missing root f).names.Sublist f.leaves := by
  induction f with
  | literal b => exact List.nil_sublist _
  | setting name => exact List.Sublist.refl _
  | not x ih =>
    rw [Formula.course]
    split
    · exact List.nil_sublist _
    · rw [Formula.leaves, ← List.append_nil x.leaves]
      exact Course.sublist_andThen ih fun b => List.nil_sublist []
  | binary c l r ihl ihr =>
    rw [Formula.course]
    split
    · exact List.nil_sublist _
    · refine Course.sublist_andThen ihl ?_
      -- the right operand is left out where the left one decides
      intro b
      cases c <;> cases b
      · exact List.nil_sublist _
      · exact ihr
      · exact ihr
      · exact List.nil_sublist _
  | hole => exact List.nil_sublist _
  | foreign kind shown => exact List.nil_sublist _

/-- **Lookups follow the leaves.** For every formula, whichever operands are missing, in every
environment and under both policies, also if the evaluation fails: the settings that are looked up are
some of the leaves from left to right. Each lookup has a leaf of its own, and later lookups have later
ones. The settings of the formula are the names of its leaves without later repeats, and what is looked
up is among them. -/
theorem lookups_follow_leaves (env : Environment) (missing : Missing) (f : Formula) :
    let names := (evaluate env missing f).names
    names.Sublist f.leaves
    ∧ (∃ leaf : Fin names.length ↪o Fin f.leaves.length, ∀ i, names.get i = f.leaves.get (leaf i))
    ∧ f.settings = f.leaves.eraseDups
    ∧ ∀ name ∈ names, name ∈ f.settings := by
  intro names
  have hsub : names.Sublist f.leaves := by
    rw [show names = _ from names_evaluate env missing f]
    exact sublist_leaves_course env missing f f
  refine ⟨hsub, List.sublist_iff_exists_fin_orderEmbedding_get_eq.mp hsub,
    f.settings_eq_eraseDups, ?_⟩
  intro name hname
  exact Formula.mem_settings.mpr (hsub.subset hname)

/-- A setting that is looked up twice, and one between that is not, as the value before it decides. -/
theorem lookups_follow_leaves_at_repeat :
    let f : Formula := .binary .and (.binary .or (.setting "a") (.setting "b"))
      (.not (.setting "a"))
    let names := (evaluate (.mapping [(.name "a", true)]) .strict f).names
    names = ["a", "a"] ∧ names.Sublist ["a", "b", "a"] ∧ f.settings = ["a", "b"]
    ∧ "a" ∈ f.settings := by
  intro f names
  have hnames : names = ["a", "a"] := names_evaluate _ _ f
  have ha : "a" ∈ names := by
    rw [hnames]
    exact List.mem_cons_self
  obtain ⟨hsub, -, hsettings, hmem⟩ :=
    lookups_follow_leaves (.mapping [(.name "a", true)]) .strict f
  exact ⟨hnames, hsub, hsettings, hmem "a" ha⟩

end FlagLogic
