import FlagLogic.Diagnostic
import FlagLogic.Parse
import FlagLogic.Proofs.Formula.Arrangement
import FlagLogic.Proofs.Formula.Folding
import FlagLogic.Proofs.Token.Scanning

/-!
What parsing accepts. An answer comes from one of its stages (`parse_run`). Main statements: a text is
parsed to a formula exactly if it has tokens, their lexemes have a fold order that leaves this formula
alone on the stack, and both limits admit it (`parse_eq_ok_iff`); lexemes that `Folds` to a formula do so in every place, those of a parsed text
do (`exists_folds_of_parse`), and what then becomes of the text depends on the limits only
(`parse_eq_of_folds`); every error is about the grammar of the text or about a limit
(`parse_error`), so a text is either parsed or refused (`refused_iff`).
-/

namespace FlagLogic

open FoldOrder Fold

/-- The number of lexemes that become nodes: all but the parentheses. -/
def nodeCount (ls : List Lexeme) : Nat :=
  ls.countP fun x => x ≠ .opening ∧ x ≠ .closing

/-- The limits admit so many nodes, nested so deep. Without any group the depth limit does not
matter. -/
def Limits.Admits (limits : Limits) (nodes depth : Nat) : Prop :=
  (nodes : Int) < limits.operations ∧ (depth = 0 ∨ (depth : Int) ≤ limits.depth)

instance (limits : Limits) (nodes depth : Nat) : Decidable (limits.Admits nodes depth) :=
  inferInstanceAs (Decidable (_ ∧ _))

theorem Arranged.length {p : Option Connective} {ls : List Lexeme} {nodes : List Formula}
    (h : Arranged p ls nodes) : nodes.length = nodeCount ls + (waiting p).length := by
  unfold nodeCount
  induction h with
  | nil p => simp
  | connective _ ih => simpa [waiting] using ih
  | leaf hx _ ih =>
    obtain ⟨ho, hc⟩ := Lexeme.ne_of_leaf? hx
    simp [waiting, ih, ho, hc]
    omega
  | group _ _ ihb ihl =>
    simp [waiting, ihb, ihl]
    omega
  | negation _ _ ihb ihl =>
    simp [waiting, ihb, ihl]
    omega

/-! ## The stages -/

namespace Traced

@[simp] theorem outcome_tokenize (text : String) :
    (Traced.tokenize text).outcome = FlagLogic.tokenize text := by
  unfold Traced.tokenize
  rw [outcome_bind]
  show FlagLogic.tokenize text >>= _ = _
  cases FlagLogic.tokenize text <;> rfl

@[simp] theorem outcome_foldOrder (ts : List Token) (maxDepth : Int) (source : String) :
    (Traced.foldOrder ts maxDepth source).outcome = FlagLogic.foldOrder ts maxDepth source := by
  unfold Traced.foldOrder
  rw [outcome_bind]
  show FlagLogic.foldOrder ts maxDepth source >>= _ = _
  cases FlagLogic.foldOrder ts maxDepth source <;> rfl

@[simp] theorem outcome_fold (nodes : List Formula) (limit : Int) (expression : Option String) :
    (Traced.fold nodes limit expression).outcome = FlagLogic.fold nodes limit expression := by
  unfold Traced.fold
  rw [outcome_bind]
  show FlagLogic.fold nodes limit expression >>= _ = _
  cases FlagLogic.fold nodes limit expression <;> rfl

end Traced

/-- Parsing without its announcements. -/
theorem parse_eq (limits : Limits) (text : String) :
    parse limits text = (do
      let ts ← tokenize text
      let nodes ← foldOrder ts limits.depth text
      match fold nodes limits.operations (some text) with
      | .ok f => .ok f
      | .error e => .error (e.ofText ts text)) := by
  unfold parse Traced.parse
  simp only [Traced.outcome_bind, Traced.outcome_tokenize, Traced.outcome_foldOrder]
  congr 1
  funext ts
  congr 1
  funext nodes
  simp only [tryCatch, tryCatchThe, MonadExceptOf.tryCatch, Traced.outcome_fold]
  cases h : fold nodes limits.operations (some text) with
  | ok f =>
    simp only [Traced.outcome_fold, h]
    rfl
  | error e => rfl

/-- The stage of parsing that an answer comes from, with what the stages before it gave. -/
inductive ParseRun (limits : Limits) (text : String) : Except Error Formula → Prop
  | untokenized {e : Error} (tokens : tokenize text = .error e) : ParseRun limits text (.error e)
  | unordered {ts : List Token} {e : Error} (tokens : tokenize text = .ok ts)
      (order : foldOrder ts limits.depth text = .error e) : ParseRun limits text (.error e)
  | unfolded {ts : List Token} {nodes : List Formula} {e : Error} (tokens : tokenize text = .ok ts)
      (order : foldOrder ts limits.depth text = .ok nodes)
      (folded : fold nodes limits.operations (some text) = .error e) :
      ParseRun limits text (.error (e.ofText ts text))
  | parsed {ts : List Token} {nodes : List Formula} {f : Formula} (tokens : tokenize text = .ok ts)
      (order : foldOrder ts limits.depth text = .ok nodes)
      (folded : fold nodes limits.operations (some text) = .ok f) : ParseRun limits text (.ok f)

theorem parse_run (limits : Limits) (text : String) : ParseRun limits text (parse limits text) := by
  rw [parse_eq]
  cases hts : tokenize text with
  | error e => exact .untokenized hts
  | ok ts =>
    cases horder : foldOrder ts limits.depth text with
    | error e =>
      simp only [bind, Except.bind, horder]
      exact .unordered hts horder
    | ok nodes =>
      cases hfold : fold nodes limits.operations (some text) with
      | error e =>
        simp only [bind, Except.bind, horder, hfold]
        exact .unfolded hts horder hfold
      | ok f =>
        simp only [bind, Except.bind, horder, hfold]
        exact .parsed hts horder hfold

/-- A text is parsed to a formula exactly if its lexemes have a fold order that leaves this formula
alone on the stack, and both limits admit it. -/
theorem parse_eq_ok_iff {limits : Limits} {text : String} {f : Formula} :
    parse limits text = .ok f ↔ ∃ ts nodes, tokenize text = .ok ts
      ∧ Arranged none (lexemes ts) nodes ∧ steps? [] nodes = some [f]
      ∧ limits.Admits (nodeCount (lexemes ts)) (nesting (lexemes ts)) := by
  constructor
  · intro h
    have hrun := parse_run limits text
    rw [h] at hrun
    cases hrun with
    | @parsed ts nodes _ hts horder hfold =>
      obtain ⟨harr, hdepth⟩ := foldOrder_eq_ok_iff.mp horder
      obtain ⟨hsteps, hlim⟩ := fold_eq_ok_iff.mp hfold
      rw [harr.length, waiting, List.length_nil, Nat.add_zero] at hlim
      rw [Within, Nat.zero_add] at hdepth
      exact ⟨ts, nodes, hts, harr, hsteps, hlim, hdepth⟩
  · rintro ⟨ts, nodes, hts, harr, hsteps, hlim, hdepth⟩
    have hlen : (nodes.length : Int) < limits.operations := by
      rwa [harr.length, waiting, List.length_nil, Nat.add_zero]
    have hwithin : Within limits.depth 0 (nesting (lexemes ts)) := by
      rwa [Within, Nat.zero_add]
    have hfold : fold nodes limits.operations (some text) = .ok f :=
      fold_eq_ok_iff.mpr ⟨hsteps, hlen⟩
    rw [parse_eq]
    simp only [hts, foldOrder_eq_ok_iff.mpr ⟨harr, hwithin⟩, hfold, bind, Except.bind]

/-- What a text is parsed to, once its tokens are known. -/
theorem parse_eq_ok_iff_of_tokenize {limits : Limits} {text : String} {ts : List Token}
    {f : Formula} (hts : tokenize text = .ok ts) :
    parse limits text = .ok f ↔ ∃ nodes, Arranged none (lexemes ts) nodes
      ∧ steps? [] nodes = some [f]
      ∧ limits.Admits (nodeCount (lexemes ts)) (nesting (lexemes ts)) := by
  rw [parse_eq_ok_iff]
  constructor
  · rintro ⟨us, nodes, hus, h⟩
    rw [hts] at hus
    cases hus
    exact ⟨nodes, h⟩
  · rintro ⟨nodes, h⟩
    exact ⟨ts, nodes, hts, h⟩

/-! ## Errors -/

theorem ofText_malformed (ts : List Token) (text : String) (flaw : Flaw)
    (expression : Option String) :
    ∃ fault position, (Error.malformed flaw expression).ofText ts text
      = .grammar fault text position :=
  ⟨_, _, rfl⟩

/-- Parsing fails with a fault of the grammar or at one of the two limits, and says which text it is
about. -/
theorem parse_error {limits : Limits} {text : String} {e : Error}
    (h : parse limits text = .error e) :
    (∃ fault position, e = .grammar fault text position)
      ∨ e = .tooDeep limits.depth text ∨ e = .tooMany limits.operations (some text) := by
  have hrun := parse_run limits text
  generalize parse limits text = answer at h hrun
  cases hrun with
  | untokenized hts =>
    cases h
    exact .inl (tokenize_error hts)
  | @unordered ts _ hts horder =>
    cases h
    rw [foldOrder] at horder
    cases arrange_answer limits.depth text 0 none ts with
    | grammar fault position heq =>
      rw [heq] at horder
      cases horder
      exact .inl ⟨fault, position, rfl⟩
    | tooDeep heq =>
      rw [heq] at horder
      cases horder
      exact .inr (.inl rfl)
    | ok nodes heq =>
      rw [heq] at horder
      cases horder
  | @unfolded ts nodes _ hts horder hfold =>
    cases h
    rcases fold_eq_error hfold with rfl | ⟨flaw, rfl⟩
    · exact .inr (.inr rfl)
    · exact .inl (ofText_malformed ts text flaw (some text))
  | parsed => cases h

/-- Groups of a text that are nested beyond the limit, and otherwise as they should be. -/
theorem parse_tooDeep {limits : Limits} {text : String} {ts : List Token} {nodes : List Formula}
    (hts : tokenize text = .ok ts) (harr : Arranged none (lexemes ts) nodes)
    (hdeep : ¬Within limits.depth 0 (nesting (lexemes ts))) :
    parse limits text = .error (.tooDeep limits.depth text) := by
  have hfold : foldOrder ts limits.depth text = .error (.tooDeep limits.depth text) := by
    rw [foldOrder, arrange_of_arranged harr, if_neg hdeep]
  rw [parse_eq, hts]
  simp only [hfold, bind, Except.bind]

/-- Within the depth limit, a text without a fold order is blamed on its grammar. -/
theorem parse_of_not_arranged {limits : Limits} {text : String} {ts : List Token}
    (hts : tokenize text = .ok ts) (hno : ∀ nodes, ¬Arranged none (lexemes ts) nodes)
    (hwithin : Within limits.depth 0 (nesting (lexemes ts))) :
    ∃ fault position, parse limits text = .error (.grammar fault text position) := by
  rw [parse_eq, hts]
  cases arrange_answer limits.depth text 0 none ts with
  | ok nodes _ harr => exact absurd harr (hno nodes)
  | tooDeep _ deep => exact absurd hwithin (deep (fused_of_tokenize hts))
  | grammar fault position heq =>
    rw [← foldOrder] at heq
    exact ⟨fault, position, by simp only [heq, bind, Except.bind]⟩

/-! ## Lexemes that fold -/

/-- The lexemes have a fold order, and it puts the formula on top of whatever the stack holds. -/
def Folds (ls : List Lexeme) (f : Formula) : Prop :=
  ∃ nodes, Arranged none ls nodes ∧ ∀ stack, steps? stack nodes = some (f :: stack)

/-- Every lexeme but the parentheses is a node of the formula. -/
theorem Folds.nodeCount_eq {ls : List Lexeme} {f : Formula} (h : Folds ls f) :
    nodeCount ls = f.size := by
  obtain ⟨nodes, harr, hsteps⟩ := h
  have hlength := harr.length
  have hsizes := sizes_steps? nodes (hsteps [])
  simp [sizes, waiting] at hlength hsizes
  omega

theorem Folds.balanced {ls : List Lexeme} {f : Formula} (h : Folds ls f) : Balanced ls := by
  obtain ⟨nodes, harr, -⟩ := h
  exact harr.balanced

/-- The lexemes of a parsed text fold to its formula. -/
theorem exists_folds_of_parse {limits : Limits} {text : String} {f : Formula}
    (h : parse limits text = .ok f) :
    ∃ ts, tokenize text = .ok ts ∧ Folds (lexemes ts) f
      ∧ limits.Admits f.size (nesting (lexemes ts)) := by
  obtain ⟨ts, nodes, hts, harr, hsteps, hlim⟩ := parse_eq_ok_iff.mp h
  have hfolds : Folds (lexemes ts) f := ⟨nodes, harr, fun stack => steps?_frame stack nodes hsteps⟩
  rw [hfolds.nodeCount_eq] at hlim
  exact ⟨ts, hts, hfolds, hlim⟩

/-- What becomes of a text whose lexemes fold, under any limits. The depth is looked at first. -/
theorem parse_eq_of_folds {limits : Limits} {text : String} {ts : List Token} {f : Formula}
    (hts : tokenize text = .ok ts) (h : Folds (lexemes ts) f) :
    parse limits text =
      if Within limits.depth 0 (nesting (lexemes ts)) then
        if limits.operations ≤ f.size then .error (.tooMany limits.operations (some text))
        else .ok f
      else .error (.tooDeep limits.depth text) := by
  have hcount := h.nodeCount_eq
  obtain ⟨nodes, harr, hsteps⟩ := h
  have hlength : nodes.length = f.size := by
    rw [harr.length, hcount]
    rfl
  split
  · next hwithin =>
    rw [parse_eq, hts]
    simp only [foldOrder_eq_ok_iff.mpr ⟨harr, hwithin⟩, bind, Except.bind]
    by_cases hmany : limits.operations ≤ f.size
    · rw [if_pos hmany, fold_tooMany (hsteps []) (by omega)]
      rfl
    · rw [if_neg hmany, fold_eq_ok_iff.mpr ⟨hsteps [], by omega⟩]
  · next hdeep => exact parse_tooDeep hts harr hdeep

/-- A text whose lexemes fold is parsed exactly under the limits that admit the formula. -/
theorem parse_eq_ok_iff_of_folds {limits : Limits} {text : String} {ts : List Token}
    {f g : Formula} (hts : tokenize text = .ok ts) (h : Folds (lexemes ts) f) :
    parse limits text = .ok g ↔ g = f ∧ limits.Admits f.size (nesting (lexemes ts)) := by
  have hadmits : limits.Admits f.size (nesting (lexemes ts)) ↔
      Within limits.depth 0 (nesting (lexemes ts)) ∧ ¬limits.operations ≤ f.size := by
    unfold Limits.Admits Within
    omega
  rw [parse_eq_of_folds hts h, hadmits]
  by_cases hwithin : Within limits.depth 0 (nesting (lexemes ts))
  · by_cases hmany : limits.operations ≤ f.size
    · simp [hwithin, hmany]
    · simp [hwithin, hmany, eq_comm]
  · simp [hwithin]

/-! ## Parsed or refused -/

/-- The text is refused, with an error about its grammar or about a limit. -/
def Refused (limits : Limits) (text : String) : Prop :=
  ∃ e, parse limits text = .error e
    ∧ (e.diagnostic.kind = "ExpressionSyntaxError" ∨ e.diagnostic.kind = "ExpressionLimitError")

theorem refused_iff {limits : Limits} {text : String} :
    Refused limits text ↔ ∀ f, parse limits text ≠ .ok f := by
  constructor
  · rintro ⟨e, he, -⟩ f hf
    rw [he] at hf
    cases hf
  · intro h
    cases hp : parse limits text with
    | ok f => exact absurd hp (h f)
    | error e =>
      refine ⟨e, hp, ?_⟩
      rcases parse_error hp with ⟨fault, position, rfl⟩ | rfl | rfl
      · exact .inl rfl
      · exact .inr rfl
      · exact .inr rfl

end FlagLogic
