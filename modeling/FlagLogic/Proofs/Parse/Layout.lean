import FlagLogic.Proofs.Parse.Acceptance
import FlagLogic.Proofs.Token.Layout

/-!
Parsing and layout. Offsets, and the spelling of literals, show in errors but decide nothing: fold
order and folding give the same nodes and the same formula without them, or errors of the same kind
(`arrange_bare`, `fold_kind`). Main statement: a text that is laid out anew is parsed to the same
formula, or refused with an error of the same kind (`parse_relaid`).
-/

namespace FlagLogic

open FoldOrder Fold

/-- The kind of report that an error is. -/
def Error.kind (e : Error) : String := e.diagnostic.kind

/-- The token without its offset and with the canonical spelling of its keyword. -/
def Token.bare (t : Token) : Token := ⟨t.lexeme.canonical, 0⟩

@[simp] theorem Token.lexeme_bare (t : Token) : t.bare.lexeme = t.lexeme.canonical := rfl

/-- The setting name that the lexeme is. -/
def Lexeme.name? : Lexeme → Option String
  | name s => some s
  | _ => none

/-! ## Kinds of errors -/

/-- Two runs that go on alike end alike. -/
theorem mapError_bind_congr {α β : Type} {a a' : Except Error α} {f f' : α → Except Error β}
    (ha : a.mapError Error.kind = a'.mapError Error.kind)
    (hf : ∀ x, (f x).mapError Error.kind = (f' x).mapError Error.kind) :
    (a >>= f).mapError Error.kind = (a' >>= f').mapError Error.kind := by
  cases a with
  | error e =>
    cases a' with
    | error e' => simpa [Except.mapError, bind, Except.bind] using ha
    | ok x' => cases ha
  | ok x =>
    cases a' with
    | error e' => cases ha
    | ok x' =>
      cases ha
      exact hf x

/-! ## Fold order -/

theorem splitGroup_bare (level : Nat) (ts : List Token) :
    splitGroup level (ts.map .bare)
      = (splitGroup level ts).map fun (body, after) => (body.map .bare, after.map .bare) := by
  fun_induction splitGroup level ts with
  | case1 => rfl
  | case2 t rest ht => simp [splitGroup, ht, Lexeme.canonical]
  | case3 t rest level ht ih | case4 t rest level ht ih =>
    simp only [List.map_cons, splitGroup, Token.lexeme_bare, ht, Lexeme.canonical, ih,
      Option.map_map]
    rfl
  | case5 t rest level hzero hsucc ho ih =>
    simp only [List.map_cons, splitGroup, Token.lexeme_bare, Option.map_map]
    cases hx : t.lexeme with
    | opening => exact absurd hx ho
    | closing =>
      cases level with
      | zero => exact absurd rfl (hzero hx)
      | succ level => exact absurd rfl (hsucc level hx)
    | _ =>
      simp only [Lexeme.canonical, ih, Option.map_map]
      rfl

theorem group?_bare {source : String} (source' : String) {t : Token} {rest body after : List Token}
    (h : group? source t rest = .ok (body, after)) :
    group? source' t.bare (rest.map .bare) = .ok (body.map .bare, after.map .bare) := by
  unfold group? at h ⊢
  rw [splitGroup_bare]
  cases hs : splitGroup 0 rest with
  | none => rw [hs] at h; cases h
  | some parts => rw [hs] at h; cases h; rfl

theorem group?_bare_error {source : String} (source' : String) {t : Token} {rest : List Token}
    {e : Error} (h : group? source t rest = .error e) :
    ∃ e', group? source' t.bare (rest.map .bare) = .error e' ∧ e'.kind = e.kind := by
  unfold group? at h ⊢
  rw [splitGroup_bare]
  cases hs : splitGroup 0 rest with
  | none =>
    rw [hs] at h
    cases h
    exact ⟨_, rfl, rfl⟩
  | some parts => rw [hs] at h; cases h

theorem lexeme_bare_of_eq {t : Token} {x : Lexeme} (ht : t.lexeme = x) (hx : x.canonical = x) :
    t.bare.lexeme = x := by
  rw [Token.lexeme_bare, ht, hx]

theorem Lexeme.canonical_eq_opening {x : Lexeme} : x.canonical = .opening ↔ x = .opening := by
  cases x <;> simp [Lexeme.canonical]

/-- Fold order is the same without offsets and spellings, and so is the kind of its error. -/
theorem arrange_bare (maxDepth : Int) (source source' : String) (depth : Nat)
    (p : Option Connective) (ts : List Token) :
    (arrange maxDepth source' depth p (ts.map .bare)).mapError Error.kind
      = (arrange maxDepth source depth p ts).mapError Error.kind := by
  -- by the cases of the tokens as they are, in which the bare tokens are read alike
  fun_induction arrange maxDepth source depth p ts with
  | case1 => rw [List.map_nil, arrange.eq_def]
  | case2 depth t rest c ht | case14 depth p t rest ht | case15 depth p t rest kind ht =>
    rw [List.map_cons, arrange.eq_def]
    simp only [Token.lexeme_bare, ht, Lexeme.canonical]
    rfl
  | case3 depth t rest c ht ih =>
    rw [List.map_cons, arrange.eq_def]
    simp only [Token.lexeme_bare, ht, Lexeme.canonical, ih]
  | case4 depth p t rest s ht ih | case5 depth p t rest b spelling ht ih =>
    rw [List.map_cons, arrange.eq_def]
    simp only [Token.lexeme_bare, ht, Lexeme.canonical]
    exact mapError_bind_congr ih fun _ => rfl
  | case6 depth p t rest ht hd =>
    rw [List.map_cons, arrange_opening (lexeme_bare_of_eq ht rfl), if_pos hd]
    rfl
  | case7 depth p t rest ht hd e he =>
    obtain ⟨e', he', hkind⟩ := group?_bare_error source' he
    rw [List.map_cons, arrange_opening (lexeme_bare_of_eq ht rfl), if_neg hd, he']
    exact congrArg Except.error hkind
  | case8 depth p t rest ht hd body after hg ihb iha =>
    rw [List.map_cons, arrange_opening (lexeme_bare_of_eq ht rfl), if_neg hd, group?_bare source' hg]
    exact mapError_bind_congr ihb fun _ => mapError_bind_congr iha fun _ => rfl
  | case9 depth p t rest ht hd | case10 depth p t ht hd =>
    rw [List.map_cons, arrange.eq_def]
    simp only [Token.lexeme_bare, ht, Lexeme.canonical, hd, if_true, if_false]
    rfl
  | case11 depth p t ht hd u rest hu =>
    have hu' : u.bare.lexeme ≠ .opening := fun h => hu (Lexeme.canonical_eq_opening.mp h)
    have ht' : t.bare.lexeme = .negation := lexeme_bare_of_eq ht rfl
    rw [List.map_cons, List.map_cons, arrange.eq_def]
    simp only [ht', if_neg hd, if_pos hu']
    rfl
  | case12 depth p t ht hd u rest hu e he =>
    obtain ⟨e', he', hkind⟩ := group?_bare_error source' he
    rw [List.map_cons, List.map_cons, arrange_fused (lexeme_bare_of_eq ht rfl)
      (lexeme_bare_of_eq (Decidable.not_not.mp hu) rfl), if_neg hd, he']
    exact congrArg Except.error hkind
  | case13 depth p t ht hd u rest hu body after hg ihb iha =>
    rw [List.map_cons, List.map_cons, arrange_fused (lexeme_bare_of_eq ht rfl)
      (lexeme_bare_of_eq (Decidable.not_not.mp hu) rfl), if_neg hd, group?_bare source' hg]
    exact mapError_bind_congr ihb fun _ => mapError_bind_congr iha fun _ => rfl

/-! ## Folding -/

/-- The kind of the error does not depend on the expression that it shows. -/
theorem run_kind (limit : Int) (expression expression' : Option String) (count : Nat)
    (stack nodes : List Formula) :
    (Fold.run limit expression' count stack nodes).mapError Error.kind
      = (Fold.run limit expression count stack nodes).mapError Error.kind := by
  fun_induction Fold.run limit expression count stack nodes with
  | case1 => rfl
  | case2 count stack node rest hlim =>
    rw [Fold.run, if_pos hlim]
    rfl
  | case3 count stack node rest hlim mid hstep ih =>
    rw [Fold.run, if_neg hlim, hstep]
    exact ih
  | case4 count stack node rest hlim hstep =>
    rw [Fold.run, if_neg hlim, hstep]
    rfl

theorem fold_kind (nodes : List Formula) (limit : Int) (expression expression' : Option String) :
    (fold nodes limit expression').mapError Error.kind
      = (fold nodes limit expression).mapError Error.kind := by
  unfold fold
  split
  · rfl
  · refine mapError_bind_congr (run_kind limit expression expression' 0 [] nodes) fun stack => ?_
    split <;> rfl

/-- The kind of an error of folding, once it is blamed on the text. -/
def kindOfText (kind : String) : String :=
  if kind = "MalformedSequenceError" then "ExpressionSyntaxError" else kind

theorem kind_ofText (ts : List Token) (text : String) (e : Error) :
    (e.ofText ts text).kind = kindOfText e.kind := by
  cases e <;> rfl

theorem mapError_kind_ofText (ts : List Token) (text : String) (a : Except Error Formula) :
    (a.mapError (Error.ofText ts text)).mapError Error.kind
      = (a.mapError Error.kind).mapError kindOfText := by
  cases a with
  | ok f => rfl
  | error e => exact congrArg Except.error (kind_ofText ts text e)

/-! ## Parsing -/

/-- Parsing as three stages; the errors of the last one are blamed on the text. -/
theorem parse_stages (limits : Limits) (text : String) :
    parse limits text = (do
      let ts ← tokenize text
      let nodes ← foldOrder ts limits.depth text
      (fold nodes limits.operations (some text)).mapError (Error.ofText ts text)) := by
  rw [parse_eq]
  congr 1
  funext ts
  congr 1
  funext nodes
  cases fold nodes limits.operations (some text) <;> rfl

/-- What becomes of a text depends on its lexemes alone, up to the spelling of literals, but for the
places that errors show. -/
theorem parse_kind {text text' : String} {ts ts' : List Token} (hts : tokenize text = .ok ts)
    (hts' : tokenize text' = .ok ts')
    (h : (lexemes ts').map Lexeme.canonical = (lexemes ts).map Lexeme.canonical)
    (limits : Limits) :
    (parse limits text').mapError Error.kind = (parse limits text).mapError Error.kind := by
  have hbare : ts'.map Token.bare = ts.map Token.bare := by
    have := congrArg (List.map (⟨·, 0⟩ : Lexeme → Token)) h
    rwa [lexemes, lexemes, List.map_map, List.map_map, List.map_map, List.map_map] at this
  have horder : (foldOrder ts' limits.depth text').mapError Error.kind
      = (foldOrder ts limits.depth text).mapError Error.kind := by
    rw [foldOrder, ← arrange_bare limits.depth text' "", hbare, arrange_bare limits.depth text ""]
    rfl
  rw [parse_stages, parse_stages, hts, hts']
  show (foldOrder ts' limits.depth text' >>= _).mapError _
    = (foldOrder ts limits.depth text >>= _).mapError _
  refine mapError_bind_congr horder fun nodes => ?_
  rw [mapError_kind_ofText, mapError_kind_ofText,
    fold_kind nodes limits.operations (some text) (some text')]

/-- The text has these tokens, up to offsets and the spelling of literals. -/
theorem exists_tokenize_of_relaid {text text' : String} {ts : List Token}
    (hts : tokenize text = .ok ts) (h : Relaid 0 text.toList ts text'.toList) :
    ∃ ts', tokenize text' = .ok ts'
      ∧ (lexemes ts').map Lexeme.canonical = (lexemes ts).map Lexeme.canonical := by
  obtain ⟨ls, hls, heq⟩ := (readAs_of_tokenize hts).relaid h
  obtain ⟨ts', hts', rfl⟩ := tokenize_of_scanned hls
  exact ⟨ts', hts', heq⟩

theorem kinds_of_canonical {ts ts' : List Token}
    (h : (lexemes ts').map Lexeme.canonical = (lexemes ts).map Lexeme.canonical) :
    ts'.map (·.lexeme.kind) = ts.map (·.lexeme.kind) := by
  have hkind : ∀ x : Lexeme, x.canonical.kind = x.kind := fun x => by
    cases x with
    | literal b s => cases b <;> rfl
    | _ => rfl
  have := congrArg (List.map Lexeme.kind) h
  simpa [lexemes, Function.comp_def, hkind] using this

theorem names_of_canonical {ts ts' : List Token}
    (h : (lexemes ts').map Lexeme.canonical = (lexemes ts).map Lexeme.canonical) :
    ts'.filterMap (·.lexeme.name?) = ts.filterMap (·.lexeme.name?) := by
  have hname : ∀ x : Lexeme, x.canonical.name? = x.name? := fun x => by cases x <;> rfl
  have := congrArg (List.filterMap Lexeme.name?) h
  simpa [lexemes, Function.comp_def, hname] using this

/-- **Layout and the case of keywords do not matter.** A text that is laid out anew has tokens of the
same kinds with the same names, and under any limits it is parsed to the same formula, or both texts
are refused with errors of the same kind. -/
theorem parse_relaid {text text' : String} {ts : List Token} (hts : tokenize text = .ok ts)
    (h : Relaid 0 text.toList ts text'.toList) :
    (∃ ts', tokenize text' = .ok ts' ∧ ts'.map (·.lexeme.kind) = ts.map (·.lexeme.kind)
      ∧ ts'.filterMap (·.lexeme.name?) = ts.filterMap (·.lexeme.name?))
    ∧ ∀ limits, (∃ f, parse limits text = .ok f ∧ parse limits text' = .ok f)
      ∨ ∃ e e', parse limits text = .error e ∧ parse limits text' = .error e'
        ∧ e'.diagnostic.kind = e.diagnostic.kind := by
  obtain ⟨ts', hts', hcanonical⟩ := exists_tokenize_of_relaid hts h
  refine ⟨⟨ts', hts', kinds_of_canonical hcanonical, names_of_canonical hcanonical⟩, ?_⟩
  intro limits
  have hkind := parse_kind hts hts' hcanonical limits
  cases hparse : parse limits text with
  | ok f =>
    cases hparse' : parse limits text' with
    | ok f' =>
      rw [hparse, hparse'] at hkind
      cases hkind
      exact .inl ⟨f, rfl, rfl⟩
    | error e' => rw [hparse, hparse'] at hkind; cases hkind
  | error e =>
    cases hparse' : parse limits text' with
    | ok f' => rw [hparse, hparse'] at hkind; cases hkind
    | error e' =>
      rw [hparse, hparse'] at hkind
      exact .inr ⟨e, e', rfl, rfl, Except.error.inj hkind⟩

/-- A text with other gaps, one of them longer, and other spellings of its keywords. -/
theorem parse_relaid_at_gaps :
    tokenize "x and TRUE" = .ok [⟨.name "x", 0⟩, ⟨.connective .and, 2⟩, ⟨.literal true "TRUE", 6⟩]
    ∧ (∃ ts', tokenize "x\n\tAND true" = .ok ts'
      ∧ ts'.map (·.lexeme.kind) = ["name", "and", "true"]
      ∧ ts'.filterMap (·.lexeme.name?) = ["x"])
    ∧ ∀ limits, (∃ f, parse limits "x and TRUE" = .ok f ∧ parse limits "x\n\tAND true" = .ok f)
      ∨ ∃ e e', parse limits "x and TRUE" = .error e ∧ parse limits "x\n\tAND true" = .error e'
        ∧ e'.diagnostic.kind = e.diagnostic.kind := by
  have hts : tokenize "x and TRUE"
      = .ok [⟨.name "x", 0⟩, ⟨.connective .and, 2⟩, ⟨.literal true "TRUE", 6⟩] := rfl
  have hrelaid : Relaid 0 "x and TRUE".toList
      [⟨.name "x", 0⟩, ⟨.connective .and, 2⟩, ⟨.literal true "TRUE", 6⟩]
      "x\n\tAND true".toList := by
    refine @Relaid.token 0 [] ['x'] _ [] ['x'] _ _ _ rfl rfl (by decide) (.same _ _) ?_
    refine @Relaid.token 1 [' '] ['a', 'n', 'd'] _ ['\n', '\t'] ['A', 'N', 'D'] _ _ _ rfl rfl
      (by decide) (.connective rfl) ?_
    refine @Relaid.token 5 [' '] ['T', 'R', 'U', 'E'] [] [' '] ['t', 'r', 'u', 'e'] [] _ _ rfl rfl
      (by decide) (.literal rfl) ?_
    exact .last (by decide)
  exact ⟨hts, parse_relaid hts hrelaid⟩

end FlagLogic
