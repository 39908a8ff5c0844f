import FlagLogic.Proofs.Eval.Course
import FlagLogic.Proofs.Formula.Whole

/-!
One formula in several environments. A course is `replay`ed by looking its names up again with other
values, up to the first one that fails. Main statements: if the second environment differs from the
first one only in failing, its course is the replayed one (`course_eq_replay`). So a strict mapping
stops the lenient run at the first name that the mapping does not hold, and a host that answers like
the mapping takes the lenient run (`policies_agree`); and an evaluation depends on nothing but the
values of the settings that it looks up (`evaluate_depends_on_lookups`).
-/

namespace FlagLogic

namespace Course

/-! ## Courses looked up again -/

/-- Looks the names up one after the other, and then goes on. The first name that fails is the end
of the course. -/
def lookUp (worth : String → Except Error Bool) (names : List String) (rest : Course) : Course :=
  match names with
  | [] => rest
  | name :: names => andThen ⟨[name], worth name⟩ fun _ => lookUp worth names rest

/-- The course with its names looked up again; they are worth something else now. -/
def replay (worth : String → Except Error Bool) (course : Course) : Course :=
  lookUp worth course.names (done course.outcome)

variable {worth : String → Except Error Bool} {course rest : Course} {next : Bool → Course}

@[simp] theorem replay_done (outcome : Except Error Bool) :
    (done outcome).replay worth = done outcome := rfl

theorem lookUp_append (xs ys : List String) (rest : Course) :
    lookUp worth (xs ++ ys) rest = lookUp worth xs (lookUp worth ys rest) := by
  induction xs with
  | nil => rfl
  | cons x xs ih => simp [lookUp, ih]

theorem lookUp_andThen (names : List String) (rest : Course) (next : Bool → Course) :
    (lookUp worth names rest).andThen next = lookUp worth names (rest.andThen next) := by
  induction names with
  | nil => rfl
  | cons name names ih => simp [lookUp, andThen_assoc, ih]

theorem lookUp_of_ok {names : List String} (h : ∀ name ∈ names, ∃ b, worth name = .ok b) :
    lookUp worth names rest = ⟨names ++ rest.names, rest.outcome⟩ := by
  induction names with
  | nil => rfl
  | cons name names ih =>
    obtain ⟨⟨b, hb⟩, hnames⟩ := List.forall_mem_cons.mp h
    simp [lookUp, hb, ih hnames]

theorem lookUp_of_error {before after : List String} {name : String} {e : Error}
    (h : ∀ x ∈ before, ∃ b, worth x = .ok b) (he : worth name = .error e) :
    lookUp worth (before ++ name :: after) rest = ⟨before ++ [name], .error e⟩ := by
  rw [lookUp_append, lookUp_of_ok h]
  simp [lookUp, he]

/-- Where no name fails, nothing changes. -/
theorem replay_of_ok (h : ∀ name ∈ course.names, ∃ b, worth name = .ok b) :
    course.replay worth = course := by
  simp [replay, lookUp_of_ok h, done]

/-- The first name that fails is the end of the course. -/
theorem replay_of_error {before after : List String} {name : String} {e : Error}
    (hnames : course.names = before ++ name :: after) (h : ∀ x ∈ before, ∃ b, worth x = .ok b)
    (he : worth name = .error e) : course.replay worth = ⟨before ++ [name], .error e⟩ := by
  rw [replay, hnames, lookUp_of_error h he]

theorem mem_names_andThen {name : String} (h : name ∈ course.names) :
    name ∈ (course.andThen next).names := by
  rcases course with ⟨names, e | b⟩
  · exact h
  · exact List.mem_append_left _ h

theorem mem_names_andThen_of_ok {b : Bool} {name : String} (hb : course.outcome = .ok b)
    (h : name ∈ (next b).names) : name ∈ (course.andThen next).names := by
  simp [andThen, hb, h]

theorem outcome_andThen_of_ok {b : Bool} (hb : course.outcome = .ok b) :
    (course.andThen next).outcome = (next b).outcome := by
  simp [andThen, hb]

/-- A course that goes on is replayed part by part. What it would have gone on with for another
value does not matter. -/
theorem replay_andThen {next' : Bool → Course}
    (h : ∀ b, course.outcome = .ok b → next' b = (next b).replay worth) :
    (course.replay worth).andThen next' = (course.andThen next).replay worth := by
  rcases course with ⟨names, e | b⟩
  · simp [replay, lookUp_andThen]
  · simp [replay, lookUp_andThen, lookUp_append, h b rfl]

end Course

/-- The second environment gives a setting no value but the one that the first gives it. Then the
course in the second is that in the first, up to the first setting that fails. -/
theorem course_eq_replay {env env' : Environment} {missing missing' : Missing} {root f : Formula}
    (h : ∀ name ∈ (Formula.course env missing root f).names, ∀ b,
      env'.worth missing' root name = .ok b → env.worth missing root name = .ok b) :
    Formula.course env' missing' root f =
      (Formula.course env missing root f).replay (env'.worth missing' root) := by
  induction f with
  | literal b => rfl
  | setting name =>
    cases hworth : env'.worth missing' root name with
    | error e => simp [Formula.course, Course.replay, Course.lookUp, hworth]
    | ok b =>
      have hb := h name (by simp [Formula.course]) b hworth
      simp [Formula.course, Course.replay, Course.lookUp, Course.done, hworth, hb]
  | not x ih =>
    rw [Formula.course, Formula.course]
    by_cases hx : x = .hole
    · simp [hx]
    · simp only [Formula.course, hx, if_false] at h ⊢
      rw [ih fun name hname => h name (Course.mem_names_andThen hname)]
      refine Course.replay_andThen ?_
      intro b _
      rfl
  | binary c l r ihl ihr =>
    rw [Formula.course, Formula.course]
    by_cases hlr : l = .hole ∨ r = .hole
    · simp [hlr]
    · simp only [Formula.course, hlr, if_false] at h ⊢
      rw [ihl fun name hname => h name (Course.mem_names_andThen hname)]
      refine Course.replay_andThen ?_
      intro b hb
      cases c <;> cases b
      -- either the left operand decides, or the right one has the last word in both environments
      · rfl
      · exact ihr fun name hname => h name (Course.mem_names_andThen_of_ok hb hname)
      · exact ihr fun name hname => h name (Course.mem_names_andThen_of_ok hb hname)
      · rfl
  | hole => rfl
  | foreign kind shown => rfl

/-! ## What environments say -/

namespace Environment

/-- A mapping holds the setting, or a host answers for it. -/
def Holds (env : Environment) (name : String) : Prop :=
  match env with
  | mapping entries => (entries.lookup (.name name)).isSome
  | host answer => (answer name).isSome

/-- The truth value that the environment gives a setting, false if it gives none. -/
def truth (env : Environment) (name : String) : Bool :=
  match env with
  | mapping entries => (entries.lookup (.name name)).getD false
  | host answer => (answer name).getD false

/-- No lookup fails: a mapping counts what it does not hold as false, a host answers for every
name. -/
inductive NeverFails : Environment → Missing → Prop
  | lenient (entries : List (Key × Bool)) : NeverFails (mapping entries) .lenient
  | host {answer : String → Option Bool} (answers : ∀ name, (answer name).isSome)
      (missing : Missing) : NeverFails (host answer) missing

instance (env : Environment) (name : String) : Decidable (env.Holds name) :=
  match env with
  | mapping entries => inferInstanceAs (Decidable ((entries.lookup (.name name)).isSome = true))
  | host answer => inferInstanceAs (Decidable ((answer name).isSome = true))

theorem worth_of_holds {env : Environment} {name : String} (h : env.Holds name) (missing : Missing)
    (root : Formula) : env.worth missing root name = .ok (env.truth name) := by
  cases env with
  | mapping entries =>
    obtain ⟨b, hb⟩ := Option.isSome_iff_exists.mp h
    simp [worth, truth, hb]
  | host answer =>
    obtain ⟨b, hb⟩ := Option.isSome_iff_exists.mp h
    simp [worth, truth, hb]

theorem worth_lenient (entries : List (Key × Bool)) (root : Formula) (name : String) :
    (mapping entries).worth .lenient root name = .ok ((mapping entries).truth name) := by
  by_cases h : (mapping entries).Holds name
  · exact worth_of_holds h .lenient root
  · have hnone : entries.lookup (.name name) = none := Option.not_isSome_iff_eq_none.mp h
    simp [worth, truth, hnone]

theorem worth_strict_of_not_holds {entries : List (Key × Bool)} {name : String}
    (h : ¬(mapping entries).Holds name) (root : Formula) :
    (mapping entries).worth .strict root name
      = .error (.undefined name root.text (entries.map (·.1.listed))) := by
  have hnone : entries.lookup (.name name) = none := Option.not_isSome_iff_eq_none.mp h
  simp [worth, known, hnone]

theorem NeverFails.worth_eq {env : Environment} {missing : Missing} (h : env.NeverFails missing)
    (root : Formula) (name : String) : env.worth missing root name = .ok (env.truth name) := by
  cases h with
  | lenient entries => exact worth_lenient entries root name
  | @host answer answers missing =>
    have hholds : Holds (.host answer) name := answers name
    exact worth_of_holds hholds missing root

end Environment

/-! ## Strict, lenient and host -/

open Environment

/-- Where neither environment fails and they agree on the names that are looked up, they take the
same course. -/
theorem course_eq_of_agree {env env' : Environment} {missing missing' : Missing} {root f : Formula}
    (he : env.NeverFails missing) (he' : env'.NeverFails missing')
    (hagree : ∀ name ∈ (Formula.course env missing root f).names, env'.truth name = env.truth name) :
    Formula.course env' missing' root f = Formula.course env missing root f := by
  have hreplay : Formula.course env' missing' root f =
      (Formula.course env missing root f).replay (env'.worth missing' root) := by
    refine course_eq_replay ?_
    intro name hname b hb
    rw [he'.worth_eq, hagree name hname] at hb
    rw [he.worth_eq, hb]
  rw [hreplay]
  refine Course.replay_of_ok ?_
  intro name _
  exact ⟨_, he'.worth_eq root name⟩

/-- What a strict mapping gives a setting, the same mapping gives it when it is lenient. -/
theorem course_strict (entries : List (Key × Bool)) (root f : Formula) :
    Formula.course (.mapping entries) .strict root f =
      (Formula.course (.mapping entries) .lenient root f).replay
        ((mapping entries).worth .strict root) := by
  refine course_eq_replay ?_
  intro name _ b hb
  by_cases h : (mapping entries).Holds name
  · rw [worth_of_holds h] at hb
    rw [worth_of_holds h, hb]
  · rw [worth_strict_of_not_holds h] at hb
    cases hb

/-- A mapping that holds all that is looked up may as well be strict. -/
theorem course_strict_of_holds {entries : List (Key × Bool)} {root f : Formula}
    (h : ∀ name ∈ (Formula.course (.mapping entries) .lenient root f).names,
      (mapping entries).Holds name) :
    Formula.course (.mapping entries) .strict root f =
      Formula.course (.mapping entries) .lenient root f := by
  rw [course_strict]
  refine Course.replay_of_ok ?_
  intro name hname
  exact ⟨_, worth_of_holds (h name hname) .strict root⟩

/-- A strict mapping stops at the first name that it does not hold. -/
theorem course_strict_of_not_holds {entries : List (Key × Bool)} {root f : Formula}
    {before after : List String} {name : String}
    (hnames : (Formula.course (.mapping entries) .lenient root f).names = before ++ name :: after)
    (hbefore : ∀ x ∈ before, (mapping entries).Holds x) (h : ¬(mapping entries).Holds name) :
    Formula.course (.mapping entries) .strict root f =
      ⟨before ++ [name], .error (.undefined name root.text (entries.map (·.1.listed)))⟩ := by
  rw [course_strict]
  refine Course.replay_of_error hnames ?_ (worth_strict_of_not_holds h root)
  intro x hx
  exact ⟨_, worth_of_holds (hbefore x hx) .strict root⟩

/-- All names have a property, or there is a first one that has not. -/
theorem forall_or_first_not {p : String → Prop} [DecidablePred p] (names : List String) :
    (∀ name ∈ names, p name) ∨ ∃ before name after, names = before ++ name :: after
      ∧ (∀ x ∈ before, p x) ∧ ¬p name := by
  cases hfind : names.find? fun name => ¬p name with
  | none =>
    left
    intro name hname
    simpa using List.find?_eq_none.mp hfind name hname
  | some name =>
    right
    obtain ⟨hname, before, after, hnames, hbefore⟩ := List.find?_eq_some_iff_append.mp hfind
    refine ⟨before, name, after, hnames, ?_, by simpa using hname⟩
    intro x hx
    simpa using hbefore x hx

theorem names_evaluate (env : Environment) (missing : Missing) (f : Formula) :
    (evaluate env missing f).names = (Formula.course env missing f f).names :=
  congrArg Course.names (course_evaluate env missing f)

theorem outcome_evaluate (env : Environment) (missing : Missing) (f : Formula) :
    (evaluate env missing f).outcome = (Formula.course env missing f f).outcome :=
  congrArg Course.outcome (course_evaluate env missing f)

/-- **Strict, lenient and host agree.** A strict mapping evaluates a formula like the same mapping
when it is lenient, if it holds all that is looked up; else it stops at the first name that it does
not hold, and reports that name together with the names that it has. A host that answers with the
values of the mapping, and with false for all other names, is as good as the lenient mapping. -/
theorem policies_agree (entries : List (Key × Bool)) (f : Formula) :
    let lenient := evaluate (.mapping entries) .lenient f
    let strict := evaluate (.mapping entries) .strict f
    ((∀ name ∈ lenient.names, (mapping entries).Holds name)
        ∧ strict.names = lenient.names ∧ strict.outcome = lenient.outcome
      ∨ ∃ before name after, lenient.names = before ++ name :: after
        ∧ (∀ x ∈ before, (mapping entries).Holds x) ∧ ¬(mapping entries).Holds name
        ∧ strict.names = before ++ [name]
        ∧ strict.outcome = .error (.undefined name f.text (entries.map (·.1.listed))))
    ∧ ∀ missing,
      let host := evaluate (.host fun name => some ((mapping entries).truth name)) missing f
      host.names = lenient.names ∧ host.outcome = lenient.outcome := by
  simp only [names_evaluate, outcome_evaluate]
  constructor
  · rcases forall_or_first_not (p := (mapping entries).Holds)
        (Formula.course (.mapping entries) .lenient f f).names with
      hall | ⟨before, name, after, hnames, hbefore, hname⟩
    · left
      rw [course_strict_of_holds hall]
      exact ⟨hall, rfl, rfl⟩
    · right
      rw [course_strict_of_not_holds hnames hbefore hname]
      exact ⟨before, name, after, hnames, hbefore, hname, rfl, rfl⟩
  · intro missing
    have hhost : NeverFails (.host fun name => some ((mapping entries).truth name)) missing :=
      .host (fun _ => rfl) missing
    rw [course_eq_of_agree (.lenient entries) hhost fun _ _ => rfl]
    exact ⟨rfl, rfl⟩

/-! ## What an evaluation depends on -/

/-- A whole formula comes to its value where all its leaves have one. -/
theorem outcome_course_of_whole {env : Environment} {missing : Missing} {root f : Formula}
    {v : String → Bool} (hf : f.Whole)
    (hv : ∀ name ∈ f.leaves, env.worth missing root name = .ok (v name)) :
    (Formula.course env missing root f).outcome = .ok (f.value v) := by
  induction f with
  | literal b => rfl
  | setting name => exact hv name (List.mem_singleton.mpr rfl)
  | not x ih =>
    have hx : x.Whole := hf
    rw [Formula.course, if_neg hx.ne_hole, Course.outcome_andThen_of_ok (ih hx hv)]
    rfl
  | binary c l r ihl ihr =>
    obtain ⟨hl, hr⟩ := hf
    have hleft := ihl hl fun name hname => hv name (List.mem_append_left _ hname)
    have hright := ihr hr fun name hname => hv name (List.mem_append_right _ hname)
    rw [Formula.course, if_neg (not_or.mpr ⟨hl.ne_hole, hr.ne_hole⟩),
      Course.outcome_andThen_of_ok hleft]
    cases c <;> cases hb : l.value v <;> simp [Formula.value, Course.done, hb, hright]
  | hole => exact hf.elim
  | foreign kind shown => exact hf.elim

/-- **An evaluation depends on what it looks up.** Take a whole formula and two environments in
which no lookup fails. If the second one gives every setting that is looked up in the first one the
same truth value, the formula has the same value in both and the same settings are looked up, in
the same order, whatever the two say about all other settings. -/
theorem evaluate_depends_on_lookups {env env' : Environment} {missing missing' : Missing}
    {f : Formula} (hf : f.Whole) (he : env.NeverFails missing) (he' : env'.NeverFails missing')
    (hagree : ∀ name ∈ (evaluate env missing f).names, env'.truth name = env.truth name) :
    ∃ b, (evaluate env missing f).outcome = .ok b ∧ (evaluate env' missing' f).outcome = .ok b
      ∧ (evaluate env' missing' f).names = (evaluate env missing f).names := by
  simp only [names_evaluate, outcome_evaluate] at hagree ⊢
  have hvalue := outcome_course_of_whole hf fun name _ => he.worth_eq f name
  rw [course_eq_of_agree he he' hagree]
  exact ⟨_, hvalue, hvalue, rfl⟩

/-- The operand `b` is skipped, so the two environments may differ on it. -/
theorem evaluate_depends_on_lookups_at_skipped :
    let f : Formula := .binary .and (.binary .or (.setting "a") (.setting "b"))
      (.not (.setting "c"))
    let env : Environment := .mapping [(.name "a", true)]
    let env' : Environment := .host fun name => some (name != "c")
    f.Whole ∧ env.NeverFails .lenient ∧ env'.NeverFails .strict
    ∧ (∀ name ∈ (evaluate env .lenient f).names, env'.truth name = env.truth name)
    ∧ ∃ b, (evaluate env .lenient f).outcome = .ok b ∧ (evaluate env' .strict f).outcome = .ok b
      ∧ (evaluate env' .strict f).names = (evaluate env .lenient f).names := by
  intro f env env'
  have hf : f.Whole := by decide
  have he : env.NeverFails .lenient := .lenient _
  have he' : env'.NeverFails .strict := .host (fun _ => rfl) .strict
  have hnames : (evaluate env .lenient f).names = ["a", "c"] := names_evaluate env .lenient f
  have hagree : ∀ name ∈ (evaluate env .lenient f).names, env'.truth name = env.truth name := by
    rw [hnames]
    decide
  exact ⟨hf, he, he', hagree, evaluate_depends_on_lookups hf he he' hagree⟩

end FlagLogic
