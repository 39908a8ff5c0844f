/-!
Events and runs that announce them. An event is something that a run announces to its log; a traced
run is its outcome together with the events up to that point, in order. Whether an event is shown,
and how, is decided elsewhere.
-/

namespace FlagLogic

/-- The severities of events. -/
inductive Level where
  | debug
  | info
  | warning
  | error
  | critical
  deriving DecidableEq, Repr

/-- What a run announces. -/
inductive Event where
  /-- A text has been cut into that many tokens. -/
  | tokenized (expression : String) (tokens : Nat)
  /-- Tokens have been put into fold order, as that many nodes. -/
  | sequenced (expression : String) (nodes : Nat)
  /-- That many nodes have been folded into a formula. -/
  | folded (expression : Option String) (nodes : Nat)
  /-- A text has been parsed. -/
  | parsed (expression : String) (nodes : Nat)
  /-- A setting without a value counts as false. -/
  | undefined (setting : String)
  /-- A command could not evaluate an expression. -/
  | evaluationFailed (expression : String) (message : String)
  /-- There is no project configuration file. -/
  | configMissing (path : String)
  /-- A configuration file holds no data. -/
  | configEmpty (path : String)
  deriving DecidableEq, Repr

/-- The outcome of a run and the events that it announced. -/
structure Traced (ε α : Type) where
  events : List Event
  outcome : Except ε α

namespace Traced

variable {ε α β : Type}

/-- A failure ends a run; its events so far stay. -/
protected def bind (run : Traced ε α) (next : α → Traced ε β) : Traced ε β :=
  match run.outcome with
  | .ok a => ⟨run.events ++ (next a).events, (next a).outcome⟩
  | .error e => ⟨run.events, .error e⟩

instance : Monad (Traced ε) where
  pure a := ⟨[], .ok a⟩
  bind := Traced.bind

instance : MonadExceptOf ε (Traced ε) where
  throw e := ⟨[], .error e⟩
  tryCatch run handler :=
    match run.outcome with
    | .ok _ => run
    | .error e => ⟨run.events ++ (handler e).events, (handler e).outcome⟩

/-- A run that announces nothing. -/
def ofExcept (outcome : Except ε α) : Traced ε α := ⟨[], outcome⟩

instance : MonadLift (Except ε) (Traced ε) := ⟨ofExcept⟩

/-- Announces an event. -/
def emit (event : Event) : Traced ε Unit := ⟨[event], .ok ()⟩

@[simp] theorem outcome_bind (run : Traced ε α) (next : α → Traced ε β) :
    (run >>= next).outcome = run.outcome >>= fun a => (next a).outcome := by
  show (Traced.bind run next).outcome = _
  unfold Traced.bind
  cases run.outcome <;> rfl

end Traced

end FlagLogic
