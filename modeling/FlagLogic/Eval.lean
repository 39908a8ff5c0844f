import FlagLogic.Eval.Environment
import FlagLogic.Formula.Walk
import FlagLogic.Parse

/-!
Evaluation. A formula is evaluated against an environment from left to right: the right operand of a
connective is entered only if the left one does not decide. The work is kept on a stack of
operators, so that the depth of a formula costs no call depth. An evaluation is its outcome together
with the settings that it looked up, in order.
-/

namespace FlagLogic

/-- What an environment says about a setting. -/
inductive Answer where
  /-- It has this value. -/
  | value (b : Bool)
  /-- A mapping does not hold it, so that it counts as false. -/
  | absent
  /-- A mapping does not hold it, which is an error. -/
  | undefined
  /-- The host declines to answer. -/
  | refused
  deriving DecidableEq, Repr

/-- The answer for a setting under a policy. -/
def Environment.ask (env : Environment) (missing : Missing) (name : String) : Answer :=
  match env with
  | .mapping entries =>
    match entries.lookup (.name name), missing with
    | some b, _ => .value b
    | none, .lenient => .absent
    | none, .strict => .undefined
  | .host answer =>
    match answer name with
    | some b => .value b
    | none => .refused

/-- A setting that was looked up, and the answer. -/
structure Lookup where
  name : String
  answer : Answer
  deriving DecidableEq, Repr

/-- What a lookup announces: a setting without a value that counts as false. -/
def Lookup.event? (l : Lookup) : Option Event :=
  match l.answer with
  | .absent => some (.undefined l.name)
  | _ => none

/-- The outcome of an evaluation and the settings that it looked up. -/
structure Evaluation where
  lookups : List Lookup
  outcome : Except Error Bool

namespace Evaluation

/-- An evaluation that fails without looking anything up. -/
def fail (e : Error) : Evaluation := ⟨[], .error e⟩

/-- The evaluation with one lookup before it. -/
def after (l : Lookup) (e : Evaluation) : Evaluation := { e with lookups := l :: e.lookups }

/-- The names looked up, in order, with repeats. -/
def names (e : Evaluation) : List String := e.lookups.map (·.name)

/-- The events that the evaluation announces. -/
def events (e : Evaluation) : List Event := e.lookups.filterMap Lookup.event?

/-- The evaluation as a run that announces its events. -/
def traced (e : Evaluation) : Traced Error Bool := ⟨e.events, e.outcome⟩

end Evaluation

namespace Eval

/-- What stays the same during an evaluation: the answers of the environment, the names that it
holds, and the formula as a whole. -/
structure Context where
  ask : String → Answer
  known : List String
  root : Formula

/-- The value of a setting, or the error that its answer amounts to. -/
def Context.settle (s : Context) (name : String) : Except Error Bool :=
  match s.ask name with
  | .value b => .ok b
  | .absent => .ok false
  | .undefined => .error (.undefined name s.root.text s.known)
  | .refused => .error (.refused name)

/-- The error of an operator without an operand. -/
def Context.incomplete (s : Context) (keyword : String) : Evaluation :=
  .fail (.incomplete keyword s.root.text)

/-- An operator whose operands are being evaluated. -/
inductive Frame where
  | negate
  /-- The left operand is being evaluated. -/
  | left (c : Connective) (right : Formula)
  /-- The right operand is being evaluated; its value is that of the connective. -/
  | right

/-- Where an evaluation stands: at a formula to evaluate, or with a value to hand on. -/
inductive Focus where
  | enter (f : Formula)
  | leave (b : Bool)

/-- The value of the left operand settles the connective. -/
def decides : Connective → Bool → Bool
  | .and, b => !b
  | .or, b => b

/-- An upper bound on the steps of a frame. -/
def Frame.weight : Frame → Nat
  | left _ r => 2 * r.size + 1
  | _ => 1

/-- An upper bound on the steps of a stack. -/
def Frame.total : List Frame → Nat
  | [] => 0
  | frame :: rest => frame.weight + total rest

/-- An upper bound on the steps of a focus. -/
def Focus.weight : Focus → Nat
  | enter f => 2 * f.size
  | leave _ => 1

/-- Evaluates on from a focus. -/
def run (s : Context) (focus : Focus) (stack : List Frame) : Evaluation :=
  match focus, stack with
  | .enter (.literal b), stack => run s (.leave b) stack
  | .enter (.setting name), stack =>
    match s.settle name with
    | .ok b => (run s (.leave b) stack).after ⟨name, s.ask name⟩
    | .error e => ⟨[⟨name, s.ask name⟩], .error e⟩
  | .enter (.not x), stack =>
    if x = .hole then s.incomplete negationKeyword else run s (.enter x) (.negate :: stack)
  | .enter (.binary c l r), stack =>
    if l = .hole ∨ r = .hole then s.incomplete c.keyword
    else run s (.enter l) (.left c r :: stack)
  | .enter .hole, _ => .fail (.foreign Value.null.kind Value.null.shown)
  | .enter (.foreign kind shown), _ => .fail (.foreign kind shown)
  | .leave b, [] => ⟨[], .ok b⟩
  | .leave b, .negate :: stack => run s (.leave (!b)) stack
  | .leave b, .left c r :: stack =>
    if decides c b then run s (.leave b) stack else run s (.enter r) (.right :: stack)
  | .leave b, .right :: stack => run s (.leave b) stack
termination_by focus.weight + Frame.total stack
decreasing_by
  all_goals simp only [Focus.weight, Frame.weight, Frame.total, Formula.size]
  all_goals omega

end Eval

/-- Evaluates a formula against an environment, under a policy for missing settings. -/
def evaluate (env : Environment) (missing : Missing) (f : Formula) : Evaluation :=
  Eval.run ⟨env.ask missing, env.known, f⟩ (.enter f) []

/-- Evaluates a text: parses it, announcing each stage, and evaluates the formula. -/
def Traced.evaluate (limits : Limits) (env : Environment) (missing : Missing) (text : String) :
    Traced Error Bool := do
  let f ← Traced.parse limits text
  (FlagLogic.evaluate env missing f).traced

/-- An environment together with the policy for the settings that it does not hold. -/
structure Evaluator where
  environment : Environment
  missing : Missing

/-- The evaluator for an environment and the name of a policy. -/
def Evaluator.make? (environment : Except SetupError Environment) (missing : Value) :
    Except SetupError Evaluator := do
  let environment ← environment
  let missing ← Missing.ofValue? missing
  return { environment, missing }

/-- Evaluates a formula. -/
def Evaluator.run (e : Evaluator) (f : Formula) : Evaluation :=
  evaluate e.environment e.missing f

/-- Every assignment of truth values to `n` settings, the first setting varying fastest. -/
def assignments : (n : Nat) → List (List Bool)
  | 0 => [[]]
  | n + 1 => (assignments n).flatMap fun rest => [false :: rest, true :: rest]

/-- The values of a formula under all assignments to its settings, in the order of `assignments`. -/
def truthTable (f : Formula) : List (Except Error Bool) :=
  let names := f.settings
  (assignments names.length).map fun values =>
    (evaluate (.mapping ((names.zip values).map fun (n, b) => (.name n, b))) .strict f).outcome

end FlagLogic
