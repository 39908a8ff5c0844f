import FlagLogic.Proofs.Formula.Arrangement

/-!
The calls that putting tokens into fold order comes to, and the errors that each of them raises on its
first tokens. Main statements: the errors of fold order are exactly those that one of its calls raises
(`foldOrder_eq_error_iff`), and inside of groups only balanced tokens are arranged (`Call.balanced`).
-/

namespace FlagLogic

open FoldOrder

/-- Tokens begin with a group: with an opening parenthesis, or with a negation fused to one. `opener` is
the token that the group begins with, `rest` what stands behind the opening parenthesis. -/
inductive BeginsGroup : List Token → (opener : Token) → (rest : List Token) → Prop
  | opening {t : Token} {rest : List Token} (ht : t.lexeme = .opening) :
      BeginsGroup (t :: rest) t rest
  | negation {t u : Token} {rest : List Token} (ht : t.lexeme = .negation)
      (hu : u.lexeme = .opening) : BeginsGroup (t :: u :: rest) t rest

/-- The calls that arranging `ts` comes to: the tokens `us` are arranged inside `depth` groups, where the
connective `p` waits for its right operand. -/
inductive Call (maxDepth : Int) (source : String) (ts : List Token) :
    (depth : Nat) → (p : Option Connective) → (us : List Token) → Prop
  | start : Call maxDepth source ts 0 none ts
  | connective {depth : Nat} {t : Token} {rest : List Token} {c : Connective}
      (call : Call maxDepth source ts depth none (t :: rest)) (ht : t.lexeme = .connective c) :
      Call maxDepth source ts depth (some c) rest
  | leaf {depth : Nat} {p : Option Connective} {t : Token} {rest : List Token} {f : Formula}
      (call : Call maxDepth source ts depth p (t :: rest)) (ht : t.lexeme.leaf? = some f) :
      Call maxDepth source ts depth none rest
  /-- What stands in a group is arranged one level deeper. -/
  | inside {depth : Nat} {p : Option Connective} {us rest body after : List Token} {opener : Token}
      (call : Call maxDepth source ts depth p us) (begins : BeginsGroup us opener rest)
      (within : depth < maxDepth) (cut : group? source opener rest = .ok (body, after)) :
      Call maxDepth source ts (depth + 1) none body
  /-- What stands behind a group is arranged once the group is. -/
  | behind {depth : Nat} {p : Option Connective} {us rest body after : List Token} {opener : Token}
      {inner : List Formula} (call : Call maxDepth source ts depth p us)
      (begins : BeginsGroup us opener rest) (within : depth < maxDepth)
      (cut : group? source opener rest = .ok (body, after))
      (arranged : arrange maxDepth source (depth + 1) none body = .ok inner) :
      Call maxDepth source ts depth none after

/-- The error that a call raises on its first tokens. -/
inductive Raises (maxDepth : Int) (source : String) :
    (depth : Nat) → (p : Option Connective) → (us : List Token) → Error → Prop
  | operandBetween {depth : Nat} {t : Token} {rest : List Token} {first second : Connective}
      (ht : t.lexeme = .connective second) :
      Raises maxDepth source depth (some first) (t :: rest)
        (.grammar (.operandBetween first second) source t.position)
  | tooDeep {depth : Nat} {p : Option Connective} {t : Token} {rest : List Token}
      (ht : t.lexeme = .opening ∨ t.lexeme = .negation) (deep : maxDepth ≤ depth) :
      Raises maxDepth source depth p (t :: rest) (.tooDeep maxDepth source)
  | openingAfterNot {depth : Nat} {p : Option Connective} {t : Token} {rest : List Token}
      (ht : t.lexeme = .negation) (within : depth < maxDepth)
      (hrest : ∀ u, rest.head? = some u → u.lexeme ≠ .opening) :
      Raises maxDepth source depth p (t :: rest) (.grammar .openingAfterNot source t.position)
  | unclosed {depth : Nat} {p : Option Connective} {us rest : List Token} {opener : Token}
      (begins : BeginsGroup us opener rest) (within : depth < maxDepth)
      (stays : splitGroup 0 rest = none) :
      Raises maxDepth source depth p us (.grammar .unclosed source opener.position)
  | unexpectedClosing {depth : Nat} {p : Option Connective} {t : Token} {rest : List Token}
      (ht : t.lexeme = .closing) :
      Raises maxDepth source depth p (t :: rest) (.grammar .unexpectedClosing source t.position)
  | unknownToken {depth : Nat} {p : Option Connective} {t : Token} {rest : List Token}
      {kind : String} (ht : t.lexeme = .unknown kind) :
      Raises maxDepth source depth p (t :: rest) (.grammar (.unknownToken kind) source t.position)

variable {maxDepth : Int} {source : String} {ts us rest body after : List Token} {opener : Token}
  {depth : Nat} {p : Option Connective} {e : Error}

/-! ## Errors of a call -/

/-- What `arrange` does with a group that the tokens begin with. -/
theorem BeginsGroup.arrange_eq (h : BeginsGroup us opener rest) (within : depth < maxDepth)
    (source : String) (p : Option Connective) :
    ∃ f : List Formula → List Formula → List Formula, arrange maxDepth source depth p us = (do
      let (body, after) ← group? source opener rest
      let inner ← arrange maxDepth source (depth + 1) none body
      let outer ← arrange maxDepth source depth none after
      return f inner outer) := by
  cases h with
  | opening ht => exact ⟨_, by rw [arrange_opening ht, if_neg (by omega)]⟩
  | negation ht hu => exact ⟨_, by rw [arrange_fused ht hu, if_neg (by omega)]⟩

theorem Raises.arrange_eq (h : Raises maxDepth source depth p us e) :
    arrange maxDepth source depth p us = .error e := by
  cases h with
  | operandBetween ht | unexpectedClosing ht | unknownToken ht =>
    rw [arrange.eq_def]
    simp only [ht]
  | tooDeep ht deep =>
    rcases ht with ht | ht
    all_goals
      rw [arrange.eq_def]
      simp only [ht, if_pos deep]
  | @openingAfterNot _ t rest ht within hrest =>
    rw [arrange.eq_def]
    simp only [ht, if_neg (Int.not_le.mpr within)]
    cases rest with
    | nil => rfl
    | cons u rest => simp only [ne_eq, hrest u rfl, not_false_eq_true, if_true]
  | unclosed begins within stays =>
    obtain ⟨f, heq⟩ := begins.arrange_eq within source p
    rw [heq, group?, stays]
    rfl

theorem eq_error_of_bind_return {a : Except Error (List Formula)} {f : List Formula → List Formula}
    (h : (do
      let nodes ← a
      return f nodes) = .error e) : a = .error e := by
  cases a with
  | error e' =>
    cases h
    rfl
  | ok nodes => cases h

/-- An error of a group comes from inside of it or from behind it. -/
theorem eq_error_of_group {a b : Except Error (List Formula)}
    {f : List Formula → List Formula → List Formula}
    (h : (do
      let inner ← a
      let outer ← b
      return f inner outer) = .error e) :
    a = .error e ∨ ∃ inner, a = .ok inner ∧ b = .error e := by
  cases a with
  | error e' =>
    cases h
    exact .inl rfl
  | ok inner => exact .inr ⟨inner, rfl, eq_error_of_bind_return h⟩

theorem splitGroup_of_group?_eq_error (h : group? source opener rest = .error e) :
    splitGroup 0 rest = none := by
  unfold group? at h
  split at h
  · cases h
  · assumption

namespace Call

/-- An error of a call is the error of the whole. -/
theorem eq_error (h : Call maxDepth source ts depth p us) :
    arrange maxDepth source depth p us = .error e →
      arrange maxDepth source 0 none ts = .error e := by
  induction h with
  | start => exact id
  | connective _ ht ih =>
    intro herr
    refine ih ?_
    rw [arrange.eq_def]
    simp only [ht]
    exact herr
  | leaf _ ht ih =>
    intro herr
    refine ih ?_
    rw [arrange_leaf ht, herr]
    rfl
  | inside _ begins within cut ih =>
    intro herr
    obtain ⟨f, heq⟩ := begins.arrange_eq within source _
    refine ih ?_
    rw [heq, cut]
    simp only [herr, bind, Except.bind]
  | behind _ begins within cut arranged ih =>
    intro herr
    obtain ⟨f, heq⟩ := begins.arrange_eq within source _
    refine ih ?_
    rw [heq, cut]
    simp only [arranged, herr, bind, Except.bind]

/-- The error of a call is raised by it or by a further call that it comes to. -/
theorem exists_raises (h : Call maxDepth source ts depth p us)
    (herr : arrange maxDepth source depth p us = .error e) :
    ∃ depth' p' us', Call maxDepth source ts depth' p' us'
      ∧ Raises maxDepth source depth' p' us' e := by
  fun_induction arrange maxDepth source depth p us with
  | case1 => cases herr
  | case2 depth t rest c ht p =>
    cases herr
    exact ⟨depth, some p, t :: rest, h, .operandBetween ht⟩
  | case3 depth t rest c ht ih => exact ih (h.connective ht) herr
  | case4 depth p t rest s ht ih | case5 depth p t rest b spelling ht ih =>
    exact ih (h.leaf (by rw [ht]; rfl)) (eq_error_of_bind_return herr)
  | case6 depth p t rest ht deep =>
    cases herr
    exact ⟨depth, p, t :: rest, h, .tooDeep (.inl ht) deep⟩
  | case7 depth p t rest ht hd e' he =>
    rw [group?_eq_error he] at herr
    cases herr
    exact ⟨depth, p, t :: rest, h,
      .unclosed (.opening ht) (Int.not_le.mp hd) (splitGroup_of_group?_eq_error he)⟩
  | case8 depth p t rest ht hd body after hg ihb iha =>
    have begins : BeginsGroup (t :: rest) t rest := .opening ht
    rcases eq_error_of_group herr with hinner | ⟨inner, hinner, houter⟩
    · exact ihb (h.inside begins (Int.not_le.mp hd) hg) hinner
    · exact iha (h.behind begins (Int.not_le.mp hd) hg hinner) houter
  | case9 depth p t rest ht deep =>
    cases herr
    exact ⟨depth, p, t :: rest, h, .tooDeep (.inr ht) deep⟩
  | case10 depth p t ht hd =>
    cases herr
    exact ⟨depth, p, [t], h, .openingAfterNot ht (Int.not_le.mp hd) (by simp)⟩
  | case11 depth p t ht hd u rest hu =>
    cases herr
    exact ⟨depth, p, t :: u :: rest, h, .openingAfterNot ht (Int.not_le.mp hd) (by simpa using hu)⟩
  | case12 depth p t ht hd u rest hu e' he =>
    rw [group?_eq_error he] at herr
    cases herr
    exact ⟨depth, p, t :: u :: rest, h, .unclosed (.negation ht (Decidable.not_not.mp hu))
      (Int.not_le.mp hd) (splitGroup_of_group?_eq_error he)⟩
  | case13 depth p t ht hd u rest hu body after hg ihb iha =>
    have begins : BeginsGroup (t :: u :: rest) t rest := .negation ht (Decidable.not_not.mp hu)
    rcases eq_error_of_group herr with hinner | ⟨inner, hinner, houter⟩
    · exact ihb (h.inside begins (Int.not_le.mp hd) hg) hinner
    · exact iha (h.behind begins (Int.not_le.mp hd) hg hinner) houter
  | case14 depth p t rest ht =>
    cases herr
    exact ⟨depth, p, t :: rest, h, .unexpectedClosing ht⟩
  | case15 depth p t rest kind ht =>
    cases herr
    exact ⟨depth, p, t :: rest, h, .unknownToken ht⟩

end Call

/-- The errors of fold order are exactly those that one of its calls raises on its first tokens. -/
theorem foldOrder_eq_error_iff :
    foldOrder ts maxDepth source = .error e ↔ ∃ depth p us, Call maxDepth source ts depth p us
      ∧ Raises maxDepth source depth p us e := by
  constructor
  · exact Call.start.exists_raises
  · rintro ⟨depth, p, us, hcall, hraises⟩
    exact hcall.eq_error hraises.arrange_eq

/-! ## Calls inside of groups -/

theorem levelAfter_group {body rest : List Lexeme} (h : Balanced body) (level : Nat) :
    levelAfter level (.opening :: body ++ .closing :: rest) = levelAfter level rest := by
  have hbody : levelAfter (level + 1) body = some (level + 1) := h.levelAfter_eq _
  rw [List.cons_append, levelAfter, if_neg (by simp), Lexeme.enter, levelAfter_append, hbody]
  simp [levelAfter, Lexeme.enter]

/-- What is left behind a group is balanced if all of it was. -/
theorem BeginsGroup.balanced (h : BeginsGroup us opener rest)
    (hcut : group? source opener rest = .ok (body, after)) (hus : Balanced (lexemes us)) :
    Balanced (lexemes after) := by
  obtain ⟨hbody, hrest⟩ := group?_eq_ok hcut
  have hgroup : Balanced (.opening :: lexemes rest) := by
    cases h with
    | opening ht => rwa [lexemes_cons, ht] at hus
    | negation ht hu =>
      rw [lexemes_cons, lexemes_cons, ht, hu] at hus
      exact (balanced_cons (by simp) (by simp)).mp hus
  rw [hrest] at hgroup
  unfold Balanced at hgroup ⊢
  rw [← levelAfter_group hbody 0]
  exact hgroup

/-- Inside of groups, only balanced tokens are arranged. -/
theorem Call.balanced (h : Call maxDepth source ts depth p us) (hdepth : 0 < depth) :
    Balanced (lexemes us) := by
  induction h with
  | start => exact absurd hdepth (Nat.lt_irrefl 0)
  | connective _ ht ih =>
    have hus := ih hdepth
    rw [lexemes_cons, ht] at hus
    exact (balanced_cons (by simp) (by simp)).mp hus
  | leaf _ ht ih =>
    obtain ⟨ho, hc⟩ := Lexeme.ne_of_leaf? ht
    exact (balanced_cons ho hc).mp (ih hdepth)
  | inside _ _ _ hcut => exact (group?_eq_ok hcut).1
  | behind _ hbegins _ hcut _ ih => exact hbegins.balanced hcut (ih hdepth)

end FlagLogic
