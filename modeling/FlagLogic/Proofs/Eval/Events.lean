import FlagLogic.Log
import FlagLogic.Proofs.Eval.Agreement
import FlagLogic.Proofs.Parse.Grammar

/-!
What a run announces. Parsing announces each stage up to the first one that fails, with the number of
tokens or of nodes (`events_parse`); evaluating announces the settings that count as false for want of a
value (`events_evaluate_lenient`, `events_evaluate_strict`). Main statement: these are the records of a
run on a text, and the numbers of nodes in them are those of the tokens that are no parentheses
(`evaluate_announces`).
-/

namespace FlagLogic

/-! ## Runs put together -/

namespace Traced

section

variable {ε α β : Type}

/-- What is announced about a result; about a failure, nothing. -/
def onSuccess (outcome : Except ε α) (events : α → List Event) : List Event :=
  match outcome with
  | .ok a => events a
  | .error _ => []

@[simp] theorem onSuccess_ok (a : α) (events : α → List Event) :
    onSuccess (.ok a : Except ε α) events = events a := rfl

/-- What follows a run is announced behind it, if there is a result to go on with. -/
theorem events_bind (run : Traced ε α) (next : α → Traced ε β) :
    (run >>= next).events = run.events ++ onSuccess run.outcome fun a => (next a).events := by
  show (Traced.bind run next).events = _
  unfold Traced.bind
  cases run.outcome with
  | ok a => rfl
  | error e => exact (List.append_nil _).symm

/-- Reporting an error in other words announces nothing. -/
theorem events_tryCatch_throw (run : Traced ε α) (other : ε → ε) :
    (tryCatch run fun e => throw (other e)).events = run.events := by
  simp only [tryCatch, tryCatchThe, MonadExceptOf.tryCatch]
  cases run.outcome with
  | ok a => rfl
  | error e => exact List.append_nil _

theorem outcome_tryCatch_throw (run : Traced ε α) (other : ε → ε) :
    (tryCatch run fun e => throw (other e)).outcome = run.outcome.mapError other := by
  simp only [tryCatch, tryCatchThe, MonadExceptOf.tryCatch]
  cases h : run.outcome with
  | ok a => exact h
  | error e => rfl

/-- A stage that announces its result. -/
theorem events_stage (x : Except ε α) (event : α → Event) :
    (do
      let a ← x
      emit (event a)
      return a : Traced ε α).events = onSuccess x fun a => [event a] := by
  cases x <;> rfl

end

theorem events_tokenize (text : String) : (Traced.tokenize text).events =
    onSuccess (FlagLogic.tokenize text) fun ts => [.tokenized text ts.length] :=
  events_stage (FlagLogic.tokenize text) fun ts => .tokenized text ts.length

theorem events_foldOrder (ts : List Token) (maxDepth : Int) (source : String) :
    (Traced.foldOrder ts maxDepth source).events =
      onSuccess (FlagLogic.foldOrder ts maxDepth source) fun nodes =>
        [.sequenced source nodes.length] :=
  events_stage (FlagLogic.foldOrder ts maxDepth source) fun nodes => .sequenced source nodes.length

theorem events_fold (nodes : List Formula) (limit : Int) (expression : Option String) :
    (Traced.fold nodes limit expression).events =
      onSuccess (FlagLogic.fold nodes limit expression) fun _ => [.folded expression nodes.length] :=
  events_stage (FlagLogic.fold nodes limit expression) fun _ => .folded expression nodes.length

/-- Folding is announced by the stage itself and once more for the text, if it succeeds. -/
theorem events_finish (nodes : List Formula) (ts : List Token) (limits : Limits) (text : String) :
    (do
      let f ← tryCatch (Traced.fold nodes limits.operations (some text)) fun e =>
        throw (e.ofText ts text)
      emit (.parsed text nodes.length)
      return f : Traced Error Formula).events =
      onSuccess (FlagLogic.fold nodes limits.operations (some text)) fun _ =>
        [.folded (some text) nodes.length, .parsed text nodes.length] := by
  rw [events_bind, events_tryCatch_throw, outcome_tryCatch_throw, events_fold, outcome_fold]
  cases FlagLogic.fold nodes limits.operations (some text) with
  | ok f => rfl
  | error e => rfl

/-- What parsing announces: each stage, up to the first one that fails. -/
theorem events_parse (limits : Limits) (text : String) : (Traced.parse limits text).events =
    onSuccess (FlagLogic.tokenize text) fun ts =>
      .tokenized text ts.length ::
        onSuccess (FlagLogic.foldOrder ts limits.depth text) fun nodes =>
          .sequenced text nodes.length ::
            onSuccess (FlagLogic.fold nodes limits.operations (some text)) fun _ =>
              [.folded (some text) nodes.length, .parsed text nodes.length] := by
  unfold Traced.parse
  rw [events_bind, events_tokenize, outcome_tokenize]
  cases FlagLogic.tokenize text with
  | error e => rfl
  | ok ts =>
    simp only [onSuccess_ok, List.singleton_append]
    rw [events_bind, events_foldOrder, outcome_foldOrder]
    cases FlagLogic.foldOrder ts limits.depth text with
    | error e => rfl
    | ok nodes =>
      simp only [onSuccess_ok, List.singleton_append]
      rw [events_finish]

end Traced

/-! ## Lookups -/

/-- Whatever is looked up is answered by the environment. -/
theorem Eval.lookups_run (s : Context) (focus : Focus) (stack : List Frame) :
    (run s focus stack).lookups
      = (run s focus stack).names.map fun name => ⟨name, s.ask name⟩ := by
  -- a lookup goes before those of the rest of the run; every other step only hands them on
  fun_induction run s focus stack with
  | case2 stack name b h ih => simpa [Evaluation.after, Evaluation.names] using ih
  | case3 | case4 | case6 | case8 | case9 | case10 => rfl
  | _ => assumption

/-- What evaluating announces depends only on the names that it looks up. -/
theorem events_evaluate (env : Environment) (missing : Missing) (f : Formula) :
    (evaluate env missing f).events = (evaluate env missing f).names.filterMap fun name =>
      Lookup.event? ⟨name, env.ask missing name⟩ := by
  have hlookups : (evaluate env missing f).lookups
      = (evaluate env missing f).names.map fun name => ⟨name, env.ask missing name⟩ :=
    Eval.lookups_run ..
  rw [Evaluation.events, hlookups, List.filterMap_map]
  rfl

/-- Where missing settings count as false, each lookup of one is announced. -/
theorem events_evaluate_lenient (entries : List (Key × Bool)) (f : Formula) :
    (evaluate (.mapping entries) .lenient f).events
      = ((evaluate (.mapping entries) .lenient f).names.filter fun name =>
          (entries.lookup (.name name)).isNone).map .undefined := by
  rw [events_evaluate, ← List.filterMap_eq_map, List.filterMap_filter]
  congr 1
  funext name
  simp only [Environment.ask, Lookup.event?]
  cases entries.lookup (.name name) <;> rfl

/-- Where missing settings are an error, nothing is announced. -/
theorem events_evaluate_strict (entries : List (Key × Bool)) (f : Formula) :
    (evaluate (.mapping entries) .strict f).events = [] := by
  rw [events_evaluate, List.filterMap_eq_nil_iff]
  intro name _
  simp only [Environment.ask, Lookup.event?]
  cases entries.lookup (.name name) <;> rfl

/-! ## Records of a run -/

/-- The record of a stage of parsing: the text, and how many tokens or nodes the stage made of it. -/
def stageRecord (logger name count text : String) (n : Nat) : Log.Record :=
  ⟨.debug, logger, name, [(.text "expression", .text text), (.text count, .int n)]⟩

/-- The records of parsing a text: one for cutting it into tokens, one for putting these into fold
order and two for folding, as far as the stages succeed. -/
def parseRecords (limits : Limits) (text : String) : List Log.Record :=
  match tokenize text with
  | .error _ => []
  | .ok ts =>
    let n := nodeCount (lexemes ts)
    stageRecord "minlog.expressions.tokens" "expression_tokenized" "token_count" text ts.length ::
      match foldOrder ts limits.depth text with
      | .error _ => []
      | .ok nodes =>
        stageRecord "minlog.expressions.sequencer" "expression_sequenced" "node_count" text n ::
          match fold nodes limits.operations (some text) with
          | .error _ => []
          | .ok _ =>
            [stageRecord "minlog.expressions.builder" "expression_tree_built" "node_count" text n,
              stageRecord "minlog.expressions.parser" "expression_parsed" "node_count" text n]

/-- The record of a setting that counts as false. -/
def undefinedRecord (name : String) : Log.Record :=
  ⟨.debug, "minlog.expressions.evaluator", "setting_undefined", [(.text "setting", .text name)]⟩

/-- The records of evaluating a formula: one for each lookup of a name that the mapping does not hold,
unless that is an error. -/
def lookupRecords (entries : List (Key × Bool)) (missing : Missing) (f : Formula) :
    List Log.Record :=
  match missing with
  | .lenient => ((evaluate (.mapping entries) .lenient f).names.filter fun name =>
      (entries.lookup (.name name)).isNone).map undefinedRecord
  | .strict => []

/-- Fold order makes a node of each token that is no parenthesis. -/
theorem length_of_foldOrder {ts : List Token} {maxDepth : Int} {source : String}
    {nodes : List Formula} (h : foldOrder ts maxDepth source = .ok nodes) :
    nodes.length = nodeCount (lexemes ts) :=
  (foldOrder_eq_ok_iff.mp h).1.length

theorem records_parse (limits : Limits) (text : String) :
    (Traced.parse limits text).events.map Event.record = parseRecords limits text := by
  rw [Traced.events_parse, parseRecords]
  cases tokenize text with
  | error e => rfl
  | ok ts =>
    simp only [Traced.onSuccess_ok]
    cases horder : foldOrder ts limits.depth text with
    | error e => rfl
    | ok nodes =>
      have hlength := length_of_foldOrder horder
      simp only [Traced.onSuccess_ok]
      cases fold nodes limits.operations (some text) with
      | error e =>
        rw [hlength]
        rfl
      | ok f =>
        rw [hlength]
        rfl

/-- A text that is parsed has a record for every stage. -/
theorem parseRecords_of_parse {limits : Limits} {text : String} {ts : List Token} {f : Formula}
    (hts : tokenize text = .ok ts) (h : parse limits text = .ok f) :
    parseRecords limits text =
      let n := nodeCount (lexemes ts)
      [stageRecord "minlog.expressions.tokens" "expression_tokenized" "token_count" text ts.length,
        stageRecord "minlog.expressions.sequencer" "expression_sequenced" "node_count" text n,
        stageRecord "minlog.expressions.builder" "expression_tree_built" "node_count" text n,
        stageRecord "minlog.expressions.parser" "expression_parsed" "node_count" text n] := by
  have hrun := parse_run limits text
  rw [h] at hrun
  cases hrun with
  | parsed hts' horder hfold =>
    obtain rfl := Except.ok.inj (hts.symm.trans hts')
    simp only [parseRecords, hts, horder, hfold]

theorem records_evaluate (entries : List (Key × Bool)) (missing : Missing) (f : Formula) :
    (evaluate (.mapping entries) missing f).events.map Event.record
      = lookupRecords entries missing f := by
  cases missing with
  | lenient =>
    rw [events_evaluate_lenient, List.map_map]
    rfl
  | strict =>
    rw [events_evaluate_strict]
    rfl

/-- **The log mirrors the run.** Under all limits, evaluating a text in a mapping writes the records of
parsing it, with the numbers of its tokens and of those that are no parentheses, and none for the stages
behind one that fails. If there is a formula, it has this number of nodes, and what follows is one record
for each lookup of a name that the mapping does not hold, in the order of the lookups and with repeats;
or none, if that is an error. -/
theorem evaluate_announces (limits : Limits) (entries : List (Key × Bool)) (missing : Missing)
    (text : String) :
    let records := (Traced.evaluate limits (.mapping entries) missing text).events.map Event.record
    (∀ e, parse limits text = .error e → records = parseRecords limits text)
    ∧ ∀ f, parse limits text = .ok f →
      records = parseRecords limits text ++ lookupRecords entries missing f
      ∧ ∃ ts, tokenize text = .ok ts ∧ nodeCount (lexemes ts) = f.size := by
  intro records
  have hrecords : records = parseRecords limits text ++ (Traced.onSuccess (parse limits text)
      fun f => (evaluate (.mapping entries) missing f).events).map Event.record := by
    rw [← records_parse, ← List.map_append]
    exact congrArg (List.map Event.record) (Traced.events_bind ..)
  constructor
  · intro e he
    rw [hrecords, he]
    exact List.append_nil _
  · intro f hf
    obtain ⟨ts, hts, hfolds, -⟩ := exists_folds_of_parse hf
    rw [hrecords, hf, Traced.onSuccess_ok, records_evaluate]
    exact ⟨rfl, ts, hts, hfolds.nodeCount_eq⟩

/-- A setting that the mapping does not hold is looked up twice, and announced twice. -/
theorem evaluate_announces_at_repeat :
    ∃ f, parse {} "a OR (a OR b)" = .ok f
      ∧ (Traced.evaluate {} (.mapping [(.name "b", true)]) .lenient "a OR (a OR b)").events.map
          Event.record
        = [stageRecord "minlog.expressions.tokens" "expression_tokenized" "token_count"
              "a OR (a OR b)" 7,
            stageRecord "minlog.expressions.sequencer" "expression_sequenced" "node_count"
              "a OR (a OR b)" 5,
            stageRecord "minlog.expressions.builder" "expression_tree_built" "node_count"
              "a OR (a OR b)" 5,
            stageRecord "minlog.expressions.parser" "expression_parsed" "node_count"
              "a OR (a OR b)" 5,
            undefinedRecord "a", undefinedRecord "a"] := by
  have hts : tokenize "a OR (a OR b)" = .ok [⟨.name "a", 0⟩, ⟨.connective .or, 2⟩, ⟨.opening, 5⟩,
      ⟨.name "a", 6⟩, ⟨.connective .or, 8⟩, ⟨.name "b", 11⟩, ⟨.closing, 12⟩] := rfl
  have hor : Derives .expression [.name "a", .connective .or, .name "b"]
      (.binary .or (.setting "a") (.setting "b")) :=
    .binary (.term (.name "a")) (.name "b")
  have hparse : parse {} "a OR (a OR b)" = .ok (.binary .or (.setting "a")
      (.binary .or (.setting "a") (.setting "b"))) :=
    parse_of_derives hts (.binary (.term (.name "a")) (.group hor)) ⟨by decide, by decide⟩
  obtain ⟨-, hok⟩ := evaluate_announces {} [(.name "b", true)] .lenient "a OR (a OR b)"
  refine ⟨_, hparse, ?_⟩
  rw [(hok _ hparse).1, parseRecords_of_parse hts hparse, lookupRecords, names_evaluate]
  rfl

end FlagLogic
