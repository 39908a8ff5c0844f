import FlagLogic.Diagnostic
import FlagLogic.Eval

/-!
Evaluation by recursion. `Formula.course` says what evaluating a formula comes to, one rule for each
kind of formula, with no stack in sight. Main statements: with frames on its stack, the machine runs
like the recursion and hands the value on to the frames (`course_run_enter`), so `evaluate` looks up
the same names in the same order and has the same outcome (`course_evaluate`).
-/

namespace FlagLogic

/-- The course of an evaluation: the names that are looked up, in order, and what it ends in. -/
structure Course where
  names : List String
  outcome : Except Error Bool

namespace Course

/-- A course that ends at once. -/
def done (outcome : Except Error Bool) : Course := ⟨[], outcome⟩

/-- Goes on with the value of a course. An error is the end of it. -/
def andThen (course : Course) (next : Bool → Course) : Course :=
  match course.outcome with
  | .ok b => ⟨course.names ++ (next b).names, (next b).outcome⟩
  | .error e => ⟨course.names, .error e⟩

@[simp] theorem andThen_ok (names : List String) (b : Bool) (next : Bool → Course) :
    andThen ⟨names, .ok b⟩ next = ⟨names ++ (next b).names, (next b).outcome⟩ := rfl

@[simp] theorem andThen_error (names : List String) (e : Error) (next : Bool → Course) :
    andThen ⟨names, .error e⟩ next = ⟨names, .error e⟩ := rfl

@[simp] theorem done_ok_andThen (b : Bool) (next : Bool → Course) :
    (done (.ok b)).andThen next = next b := rfl

@[simp] theorem done_error_andThen (e : Error) (next : Bool → Course) :
    (done (.error e)).andThen next = done (.error e) := rfl

@[simp] theorem andThen_done (course : Course) :
    course.andThen (fun b => done (.ok b)) = course := by
  rcases course with ⟨names, e | b⟩
  · rfl
  · simp [done]

theorem andThen_assoc (course : Course) (f g : Bool → Course) :
    (course.andThen f).andThen g = course.andThen fun b => (f b).andThen g := by
  rcases course with ⟨names, e | b⟩
  · rfl
  · rcases h : f b with ⟨more, e | c⟩ <;> simp [h]

end Course

/-! ## The recursion -/

/-- What a setting of the formula `root` is worth: the value that a mapping holds, or else what the
policy says; the answer of a host, or an error if it declines. -/
def Environment.worth (env : Environment) (missing : Missing) (root : Formula) (name : String) :
    Except Error Bool :=
  match env with
  | .mapping entries =>
    match entries.lookup (.name name) with
    | some b => .ok b
    | none =>
      match missing with
      | .lenient => .ok false
      | .strict => .error (.undefined name root.text env.known)
  | .host answer =>
    match answer name with
    | some b => .ok b
    | none => .error (.refused name)

/-- The course of evaluating a part of the formula `root`. An operator that lacks an operand fails
before anything below it is looked up; the right operand of a connective is evaluated only if the
left one does not decide. -/
def Formula.course (env : Environment) (missing : Missing) (root : Formula) : Formula → Course
  | literal b => .done (.ok b)
  | setting name => ⟨[name], env.worth missing root name⟩
  | not x =>
    if x = hole then .done (.error (.incomplete "NOT" root.text))
    else (course env missing root x).andThen fun b => .done (.ok (!b))
  | binary c l r =>
    if l = hole ∨ r = hole then .done (.error (.incomplete c.keyword root.text))
    else (course env missing root l).andThen fun b =>
      match c, b with
      | .and, false => .done (.ok false)
      | .or, true => .done (.ok true)
      | .and, true | .or, false => course env missing root r
  | hole => .done (.error (.foreign Value.null.kind Value.null.shown))
  | foreign kind shown => .done (.error (.foreign kind shown))

/-- The course that an evaluation took. -/
def Evaluation.course (e : Evaluation) : Course := ⟨e.names, e.outcome⟩

/-! ## The machine and the recursion -/

namespace Eval

/-- The context of evaluating the formula `root`. -/
def context (env : Environment) (missing : Missing) (root : Formula) : Context :=
  ⟨env.ask missing, env.known, root⟩

theorem settle_context (env : Environment) (missing : Missing) (root : Formula) (name : String) :
    (context env missing root).settle name = env.worth missing root name := by
  cases env with
  | mapping entries =>
    simp only [context, Context.settle, Environment.ask, Environment.worth]
    cases entries.lookup (.name name) with
    | some b => rfl
    | none => cases missing <;> rfl
  | host answer =>
    simp only [context, Context.settle, Environment.ask, Environment.worth]
    cases answer name <;> rfl

/-- Handing a value on to a connective whose right operand is left. -/
theorem run_leave_left (s : Context) (c : Connective) (b : Bool) (r : Formula)
    (stack : List Frame) :
    run s (.leave b) (.left c r :: stack) =
      if decides c b then run s (.leave b) stack else run s (.enter r) (.right :: stack) := by
  rw [run]

/-- With frames on the stack, the machine evaluates a formula like the recursion and hands the value
on to the frames. -/
theorem course_run_enter (env : Environment) (missing : Missing) (root f : Formula)
    (stack : List Frame) :
    (run (context env missing root) (.enter f) stack).course =
      (Formula.course env missing root f).andThen fun b =>
        (run (context env missing root) (.leave b) stack).course := by
  -- by induction on the formula, whatever is on the stack: its operands find one more frame there
  induction f generalizing stack with
  | literal b =>
    rw [run]
    rfl
  | setting name =>
    rw [run, settle_context, Formula.course]
    cases env.worth missing root name with
    | ok b => rfl
    | error e => rfl
  | not x ih =>
    rw [run, Formula.course]
    by_cases hx : x = .hole
    · rw [if_pos hx, if_pos hx]
      rfl
    · rw [if_neg hx, if_neg hx, ih, Course.andThen_assoc]
      congr 1
      funext b
      rw [run]
      rfl
  | binary c l r ihl ihr =>
    rw [run, Formula.course]
    by_cases hlr : l = .hole ∨ r = .hole
    · rw [if_pos hlr, if_pos hlr]
      rfl
    · rw [if_neg hlr, if_neg hlr, ihl, Course.andThen_assoc]
      -- the frame behind the right operand hands its value on as it is
      have hright : (run (context env missing root) (.enter r) (.right :: stack)).course =
          (Formula.course env missing root r).andThen fun b =>
            (run (context env missing root) (.leave b) stack).course := by
        rw [ihr]
        congr 1
        funext b
        rw [run]
      congr 1
      funext b
      rw [run_leave_left]
      cases c <;> cases b <;> simp [decides, hright]
  | hole =>
    rw [run]
    rfl
  | foreign kind shown =>
    rw [run]
    rfl

end Eval

/-! ## Evaluating a formula -/

/-- `evaluate` takes the course of the recursion. -/
theorem course_evaluate (env : Environment) (missing : Missing) (f : Formula) :
    (evaluate env missing f).course = f.course env missing f := by
  have hend (b : Bool) :
      (Eval.run (Eval.context env missing f) (.leave b) []).course = .done (.ok b) := by
    rw [Eval.run]
    rfl
  calc (evaluate env missing f).course
      = (Eval.run (Eval.context env missing f) (.enter f) []).course := rfl
    _ = (f.course env missing f).andThen fun b => .done (.ok b) := by
        simp only [Eval.course_run_enter, hend]
    _ = f.course env missing f := Course.andThen_done _

/-- **The machine follows the recursion.** For every formula, whichever operands are missing, and in
every environment, `evaluate` looks up the names that the recursion looks up, in the same order, and
ends in the same value or error; an operator without an operand is reported by its keyword. -/
theorem evaluate_follows_recursion (env : Environment) (missing : Missing) (f : Formula) :
    (evaluate env missing f).names = (f.course env missing f).names
    ∧ (evaluate env missing f).outcome = (f.course env missing f).outcome
    ∧ ∀ keyword expression, (Error.incomplete keyword expression).diagnostic
      = .evaluation ("Incomplete " ++ keyword ++ " node") expression [] := by
  have hcourse := course_evaluate env missing f
  exact ⟨congrArg Course.names hcourse, congrArg Course.outcome hcourse, fun _ _ => rfl⟩

/-- An operand is missing on the right, but the left operand decides before it is reached. -/
example : Formula.course (.mapping [(.name "a", false)]) .strict .hole
    (.binary .and (.setting "a") (.not .hole)) = ⟨["a"], .ok false⟩ := rfl

end FlagLogic
