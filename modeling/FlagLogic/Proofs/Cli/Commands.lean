import FlagLogic.Cli
import FlagLogic.Proofs.Eval.Safety
import FlagLogic.Proofs.Eval.Updates

/-!
What the commands on expressions do. Each of `parse`, `check` and `eval` either fails with the report
of an error, with nothing among the results, or prints its results and nothing else
(`Outcome.FailsWith`, `Outcome.Prints`). Main statement: they fail for the same expressions, which are
those that do not parse, and `check` marks every setting that a strict `eval` could miss
(`commands_agree`).
-/

namespace FlagLogic.Cli

/-! ## Ends of commands -/

namespace Outcome

/-- Nothing is printed but the report of this error, the code is 1, and no failure escapes. -/
structure FailsWith (o : Outcome) (e : Error) (format : Format) : Prop where
  code : o.code = 1
  escaped : o.escaped = none
  results : o.results = []
  complaints : o.complaints = [e.diagnostic.render format]

/-- These results are printed, no complaints, and no failure escapes. -/
structure Prints (o : Outcome) (lines : List String) (code : Nat) : Prop where
  code : o.code = code
  escaped : o.escaped = none
  results : o.results = lines
  complaints : o.complaints = []

/-- Events are no lines of either stream. -/
theorem results_announced (events : List Event) (acts : List Act) (code : Nat) :
    results ⟨announced events ++ acts, code, none⟩ = results ⟨acts, code, none⟩ := by
  simp [results, announced]

theorem complaints_announced (events : List Event) (acts : List Act) (code : Nat) :
    complaints ⟨announced events ++ acts, code, none⟩ = complaints ⟨acts, code, none⟩ := by
  simp [complaints, announced]

theorem failsWith_failed (events : List Event) (e : Error) (format : Format) :
    (failed (announced events) e format).FailsWith e format where
  code := rfl
  escaped := rfl
  results := results_announced ..
  complaints := complaints_announced ..

theorem prints_out (events : List Event) (lines : List String) (code : Nat) :
    Prints ⟨announced events ++ lines.map .out, code, none⟩ lines code where
  code := rfl
  escaped := rfl
  results := by
    rw [results_announced]
    simp [results, Act.out, Function.comp_def]
  complaints := by
    rw [complaints_announced]
    simp [complaints, Act.out, Function.comp_def]

end Outcome

open Outcome

/-! ## One command at a time -/

variable {config : Config} {x : String} {e : Error} {f : Formula}

theorem parseCommand_of_error (h : parse config.limits x = .error e) (format : Format) :
    (parseCommand config x format).FailsWith e format := by
  have hrun : (Traced.parse config.limits x).outcome = .error e := h
  simp only [parseCommand, hrun]
  exact failsWith_failed ..

/-- A formula as `parse` shows it. -/
def shownFormula (f : Formula) : Format → String
  | .text => f.text
  | .json => Json.pretty f.toValue

theorem parseCommand_of_ok (h : parse config.limits x = .ok f) (format : Format) :
    (parseCommand config x format).Prints [shownFormula f format] 0 := by
  have hrun : (Traced.parse config.limits x).outcome = .ok f := h
  simp only [parseCommand, hrun]
  exact prints_out _ [shownFormula f format] 0

theorem checkCommand_of_error (h : parse config.limits x = .error e) (quiet : Bool) :
    (checkCommand config quiet x).FailsWith e .text := by
  have hrun : (Traced.parse config.limits x).outcome = .error e := h
  simp only [checkCommand, hrun]
  exact failsWith_failed ..

theorem checkCommand_of_ok (h : parse config.limits x = .ok f) (quiet : Bool) :
    (checkCommand config quiet x).Prints
      (if quiet then [] else "OK" :: f.settings.map (settingLine config)) 0 := by
  have hrun : (Traced.parse config.limits x).outcome = .ok f := h
  simp only [checkCommand, hrun]
  cases quiet with
  | true => exact prints_out _ [] 0
  | false => exact prints_out _ ("OK" :: f.settings.map (settingLine config)) 0

variable {r : EvalRequest} {env : Environment}

/-- The policy of an evaluation for settings without a value. -/
def EvalRequest.missing (config : Config) (r : EvalRequest) : Missing :=
  if r.strict then .strict else config.missing

theorem evaluateIn_of_parse_error (h : parse config.limits r.expression = .error e) :
    (evaluateIn config r env).FailsWith e r.format := by
  have hrun : (Traced.parse config.limits r.expression).outcome = .error e := h
  simp only [evaluateIn, hrun]
  exact failsWith_failed ..

theorem evaluateIn_of_error (h : parse config.limits r.expression = .ok f)
    (he : (evaluate env (r.missing config) f).outcome = .error e) :
    (evaluateIn config r env).FailsWith e r.format := by
  have hrun : (Traced.parse config.limits r.expression).outcome = .ok f := h
  rw [EvalRequest.missing] at he
  simp only [evaluateIn, hrun, he]
  exact failsWith_failed ..

/-- The answer that `eval` prints for the value of a formula. -/
def answer (f : Formula) (b : Bool) : Format → String
  | .text => Report.truth b
  | .json => Json.pretty (.record [("expression", .text f.text), ("result", .bool b)])

/-- The code of `eval` for the value of a formula. -/
def EvalRequest.code (r : EvalRequest) (b : Bool) : Nat := if r.exitStatus && !b then 1 else 0

theorem evaluateIn_of_ok {b : Bool} (h : parse config.limits r.expression = .ok f)
    (hb : (evaluate env (r.missing config) f).outcome = .ok b) :
    (evaluateIn config r env).Prints [answer f b r.format] (r.code b) := by
  have hrun : (Traced.parse config.limits r.expression).outcome = .ok f := h
  rw [EvalRequest.missing] at hb
  simp only [evaluateIn, hrun, hb]
  exact prints_out _ [answer f b r.format] _

/-- There are results exactly if the evaluation has a value. -/
theorem results_evaluateIn_ne_nil_iff (h : parse config.limits r.expression = .ok f) :
    (evaluateIn config r env).results ≠ []
      ↔ ∃ b, (evaluate env (r.missing config) f).outcome = .ok b := by
  cases houtcome : (evaluate env (r.missing config) f).outcome with
  | error e => simp [(evaluateIn_of_error h houtcome).results]
  | ok b => simp [(evaluateIn_of_ok h houtcome).results]

/-- The code is 1 exactly if the evaluation has no value, or a false one that is to show in it. -/
theorem code_evaluateIn_eq_one_iff (h : parse config.limits r.expression = .ok f) :
    (evaluateIn config r env).code = 1
      ↔ (∃ e, (evaluate env (r.missing config) f).outcome = .error e)
        ∨ r.exitStatus = true ∧ (evaluate env (r.missing config) f).outcome = .ok false := by
  cases houtcome : (evaluate env (r.missing config) f).outcome with
  | error e => simp [(evaluateIn_of_error h houtcome).code]
  | ok b => simp [(evaluateIn_of_ok h houtcome).code, EvalRequest.code]

/-! ## Lines that call a command -/

/-- The words behind the command `c` are read without complaint: they are options with fitting values,
none of which is answered before the command runs, and one expression. -/
structure Calls (s : Surroundings) (c : Command) (line : List String) (x : String) (w : Words) :
    Prop where
  read : Words.read c.spellings true line = .ok w
  unanswered : answerFirst? c w = none
  fitting : checkValues s c w = .ok ()
  others : w.others = [x]

/-- Every expression is called for by some line, as it may follow a word of two dashes. -/
theorem calls_of_dashes (s : Surroundings) (c : Command) (x : String) :
    Calls s c ["--", x] x ⟨[], [x]⟩ where
  read := by
    unfold Words.read
    rfl
  unanswered := rfl
  fitting := rfl
  others := rfl

/-- What the words of a line ask of an evaluation. -/
def evalRequest (x : String) (w : Words) : EvalRequest where
  expression := x
  assignments := w.values .set
  settingsFile := w.value? .settingsFile
  strict := w.has .strict
  format := formatOf w
  exitStatus := w.has .exitStatus

namespace Calls

variable {ctx : Context} {c : Command} {line : List String} {w : Words}

theorem runCommand_eq (h : Calls ctx.surroundings c line x w) (hc : c ≠ .config) {o : Outcome}
    (hrun : runLeaf ctx c w = .ok o) : runCommand ctx c line = o := by
  have hmixed : (c != .config) = true := by simpa using hc
  simp only [runCommand, hmixed, h.read, h.unanswered, hrun]

theorem expression?_eq (h : Calls ctx.surroundings c line x w) : expression? w = .ok x := by
  rw [expression?, h.others]

theorem runCommand_parse (h : Calls ctx.surroundings .parse line x w) :
    runCommand ctx .parse line = parseCommand ctx.config x (formatOf w) := by
  refine h.runCommand_eq nofun ?_
  simp only [runLeaf, h.fitting, h.expression?_eq]
  rfl

theorem runCommand_check (h : Calls ctx.surroundings .check line x w) :
    runCommand ctx .check line = checkCommand ctx.config ctx.quiet x := by
  refine h.runCommand_eq nofun ?_
  simp only [runLeaf, h.fitting, h.expression?_eq]
  rfl

theorem runCommand_evaluate (h : Calls ctx.surroundings .evaluate line x w) {env : Environment}
    (henv : (evalRequest x w).environment ctx.surroundings ctx.config = .ok env) :
    runCommand ctx .evaluate line = evaluateIn ctx.config (evalRequest x w) env := by
  refine h.runCommand_eq nofun ?_
  simp only [runLeaf, h.fitting, h.expression?_eq]
  have heval : evaluateCommand ctx.surroundings ctx.config (evalRequest x w) =
      evaluateIn ctx.config (evalRequest x w) env := by
    rw [evaluateCommand, henv]
  rw [← heval]
  rfl

/-- `parse` succeeds exactly if the expression is parsed. -/
theorem code_parse_eq_zero_iff (h : Calls ctx.surroundings .parse line x w) :
    (runCommand ctx .parse line).code = 0 ↔ ∃ f, parse ctx.config.limits x = .ok f := by
  rw [h.runCommand_parse]
  cases hx : parse ctx.config.limits x with
  | error e => simp [(parseCommand_of_error hx _).code]
  | ok f => simp [(parseCommand_of_ok hx _).code]

/-- `check` succeeds exactly if the expression is parsed. -/
theorem code_check_eq_zero_iff (h : Calls ctx.surroundings .check line x w) :
    (runCommand ctx .check line).code = 0 ↔ ∃ f, parse ctx.config.limits x = .ok f := by
  rw [h.runCommand_check]
  cases hx : parse ctx.config.limits x with
  | error e => simp [(checkCommand_of_error hx _).code]
  | ok f => simp [(checkCommand_of_ok hx _).code]

end Calls

/-! ## Settings without a value -/

/-- A configured value is the value in the environment of the configuration. -/
theorem lookup_map_name (settings : List (String × Bool)) (name : String) :
    (settings.map fun (n, b) => (Key.name n, b)).lookup (.name name) = settings.lookup name := by
  induction settings with
  | nil => rfl
  | cons p settings ih =>
    rw [List.map_cons, lookup_cons_eq_ite, lookup_cons_eq_ite, ih]
    simp only [Key.name.injEq]

theorem holds_environment_iff {name : String} :
    config.environment.Holds name ↔ (config.settings.lookup name).isSome := by
  rw [Config.environment, Environment.Holds, lookup_map_name]

/-- The line of `check` for a setting without a configured value. -/
def unsetLine (name : String) : String := "  " ++ name ++ "  (no configured value)"

theorem settingLine_of_not_holds {name : String} (h : ¬config.environment.Holds name) :
    settingLine config name = unsetLine name := by
  rw [holds_environment_iff] at h
  rw [settingLine, if_neg h, unsetLine]

/-- A setting that `check` lists without the mark has a configured value. -/
theorem holds_of_unmarked (h : parse config.limits x = .ok f) {name : String}
    (hname : name ∈ f.settings)
    (hunmarked : unsetLine name ∉ (checkCommand config false x).results) :
    config.environment.Holds name := by
  by_contra hnot
  refine hunmarked ?_
  rw [(checkCommand_of_ok h false).results, ← settingLine_of_not_holds hnot]
  exact List.mem_cons_of_mem _ (List.mem_map_of_mem hname)

/-- If `check` marks no setting, the configured values are enough for a strict evaluation. -/
theorem exists_value_of_unmarked (h : parse config.limits x = .ok f)
    (hunmarked : ∀ name ∈ f.settings, unsetLine name ∉ (checkCommand config false x).results) :
    ∃ b, (evaluate config.environment .strict f).outcome = .ok b := by
  have hworth : ∀ name ∈ f.leaves,
      config.environment.worth .strict f name = .ok (config.environment.truth name) := by
    intro name hname
    have hsetting : name ∈ f.settings := Formula.mem_settings.mpr hname
    exact Environment.worth_of_holds (holds_of_unmarked h hsetting (hunmarked name hsetting)) ..
  rw [outcome_evaluate]
  exact ⟨_, outcome_course_of_whole (whole_of_parse h) hworth⟩

/-- Without values from the line, an evaluation goes by the configured values. -/
theorem environment_of_none {s : Surroundings} (hfile : r.settingsFile = none)
    (hset : r.assignments = []) : r.environment s config = .ok config.environment := by
  simp only [EvalRequest.environment, hfile, hset]
  rfl

/-! ## The commands together -/

/-- **The commands agree with each other and with the parser.** Take three lines that call `parse`,
`check` and `eval` for the same expression, none of them in a wrong way. The first two succeed exactly
if the expression is parsed; if it is not, all three fail and report the error of the parser. If it is
parsed, `eval` prints a result exactly if the evaluation has a value, and its code is 1 exactly if the
evaluation has none, or if it is false and the code was asked to show that. If `check` is not quiet and
marks no setting, a strict `eval` that goes by the configuration alone has a value, so that no setting
is undefined. -/
theorem commands_agree {ctx : Context} {x : String} {forParse forCheck forEval : List String}
    {p c w : Words} {env : Environment} (hparse : Calls ctx.surroundings .parse forParse x p)
    (hcheck : Calls ctx.surroundings .check forCheck x c)
    (heval : Calls ctx.surroundings .evaluate forEval x w)
    (henv : (evalRequest x w).environment ctx.surroundings ctx.config = .ok env) :
    let parsed := runCommand ctx .parse forParse
    let checked := runCommand ctx .check forCheck
    let evaluated := runCommand ctx .evaluate forEval
    (parsed.code = 0 ↔ checked.code = 0)
    ∧ (checked.code = 0 ↔ ∃ f, parse ctx.config.limits x = .ok f)
    ∧ ((¬∃ f, parse ctx.config.limits x = .ok f) → ∃ e, parse ctx.config.limits x = .error e
      ∧ parsed.FailsWith e (formatOf p) ∧ checked.FailsWith e .text
      ∧ evaluated.FailsWith e (formatOf w))
    ∧ ∀ f, parse ctx.config.limits x = .ok f →
      let missing : Missing := if w.has .strict then .strict else ctx.config.missing
      let evaluation := evaluate env missing f
      (evaluated.results ≠ [] ↔ ∃ b, evaluation.outcome = .ok b)
      ∧ (evaluated.code = 1 ↔ (∃ e, evaluation.outcome = .error e)
        ∨ w.has .exitStatus = true ∧ evaluation.outcome = .ok false)
      ∧ (ctx.quiet = false → (∀ name ∈ f.settings, unsetLine name ∉ checked.results) →
        w.has .strict = true → w.value? .settingsFile = none → w.values .set = [] →
        ∃ b, evaluation.outcome = .ok b) := by
  intro parsed checked evaluated
  have hparsed : parsed = parseCommand ctx.config x (formatOf p) := hparse.runCommand_parse
  have hchecked : checked = checkCommand ctx.config ctx.quiet x := hcheck.runCommand_check
  have hevaluated : evaluated = evaluateIn ctx.config (evalRequest x w) env :=
    heval.runCommand_evaluate henv
  refine ⟨hparse.code_parse_eq_zero_iff.trans hcheck.code_check_eq_zero_iff.symm,
    hcheck.code_check_eq_zero_iff, ?_, ?_⟩
  · intro hnone
    cases hx : parse ctx.config.limits x with
    | ok f => exact absurd ⟨f, hx⟩ hnone
    | error e =>
      rw [hparsed, hchecked, hevaluated]
      exact ⟨e, rfl, parseCommand_of_error hx _, checkCommand_of_error hx _,
        evaluateIn_of_parse_error hx⟩
  · intro f hx missing evaluation
    rw [hevaluated]
    refine ⟨results_evaluateIn_ne_nil_iff hx, code_evaluateIn_eq_one_iff hx, ?_⟩
    intro hquiet hunmarked hstrict hfile hset
    rw [environment_of_none hfile hset] at henv
    obtain rfl : ctx.config.environment = env := by simpa using henv
    simp only [evaluation, missing, hstrict, if_true]
    refine exists_value_of_unmarked hx ?_
    rw [← hquiet, ← hchecked]
    exact hunmarked

/-- Both settings have configured values; the expression is false, which is to show in the code. -/
theorem commands_agree_at_configured :
    let x := "a OR NOT(b)"
    let f : Formula := .binary .or (.setting "a") (.not (.setting "b"))
    let ctx : Context := {
      surroundings :=
        { directory := "/w", vars := [], entry := fun _ => .absent, yaml := .knowing [] }
      config := { settings := [("b", true), ("a", false)] }
      quiet := false }
    let line := ["--strict", x, "--exit-status"]
    let w : Words := ⟨[(.strict, ""), (.exitStatus, "")], [x]⟩
    Calls ctx.surroundings .parse ["--", x] x ⟨[], [x]⟩
    ∧ Calls ctx.surroundings .check ["--", x] x ⟨[], [x]⟩
    ∧ Calls ctx.surroundings .evaluate line x w
    ∧ (evalRequest x w).environment ctx.surroundings ctx.config = .ok ctx.config.environment
    ∧ parse ctx.config.limits x = .ok f
    ∧ (∀ name ∈ f.settings, unsetLine name ∉ (runCommand ctx .check ["--", x]).results)
    ∧ (evaluate ctx.config.environment .strict f).outcome = .ok false
    ∧ (∃ b, (evaluate ctx.config.environment .strict f).outcome = .ok b)
    ∧ (runCommand ctx .parse ["--", x]).code = 0
    ∧ (runCommand ctx .evaluate line).results ≠ [] ∧ (runCommand ctx .evaluate line).code = 1 := by
  intro x f ctx line w
  have hparse := calls_of_dashes ctx.surroundings .parse x
  have hcheck := calls_of_dashes ctx.surroundings .check x
  have heval : Calls ctx.surroundings .evaluate line x w :=
    ⟨by decide +kernel, by decide, rfl, rfl⟩
  have henv : (evalRequest x w).environment ctx.surroundings ctx.config
      = .ok ctx.config.environment := environment_of_none rfl rfl
  have hts : tokenize "a OR NOT(b)" = .ok [⟨.name "a", 0⟩, ⟨.connective .or, 2⟩, ⟨.negation, 5⟩,
      ⟨.opening, 8⟩, ⟨.name "b", 9⟩, ⟨.closing, 10⟩] := rfl
  have hx : parse ctx.config.limits x = .ok f :=
    parse_of_derives hts
      (.binary (c := .or) (.term (.name "a")) (.negation (.term (.name "b")))) (by decide)
  have hmarks : ∀ name ∈ f.settings, unsetLine name ∉ (runCommand ctx .check ["--", x]).results := by
    rw [hcheck.runCommand_check, (checkCommand_of_ok hx _).results]
    simp only [Formula.settings_eq_foldl]
    decide
  have hfalse : (evaluate ctx.config.environment .strict f).outcome = .ok false :=
    outcome_evaluate ctx.config.environment .strict f
  obtain ⟨hboth, hparsed, -, haccepted⟩ := commands_agree hparse hcheck heval henv
  obtain ⟨hresults, hcode, hvalue⟩ := haccepted f hx
  exact ⟨hparse, hcheck, heval, henv, hx, hmarks, hfalse, hvalue rfl hmarks rfl rfl rfl,
    hboth.mpr (hparsed.mpr ⟨f, hx⟩), hresults.mpr ⟨false, hfalse⟩, hcode.mpr (.inr ⟨rfl, hfalse⟩)⟩

end FlagLogic.Cli
