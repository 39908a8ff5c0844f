import FlagLogic.Proofs.Token.Nesting
import FlagLogic.Trace

/-!
Fold order as a relation. `Arranged pending ls nodes` says what the fold order of lexemes is,
without limits, offsets and errors: leaves keep their places, a connective moves behind its right
operand, a negation behind its group. Main statements: `arrange` computes exactly this relation
where the nesting is within the limit, and otherwise stops with an error about the grammar or, only
if the nesting is beyond the limit, about the depth (`arrange_of_arranged`, `arrange_answer`).
-/

namespace FlagLogic

open FoldOrder

/-- The leaf that a lexeme stands for, if it is a name or a literal. -/
def Lexeme.leaf? : Lexeme → Option Formula
  | .name s => some (.setting s)
  | .literal b _ => some (.literal b)
  | _ => none

/-- `nodes` is the fold order of the lexemes of a group, or of a rest of it before which the
connective `pending` waits for its right operand. -/
inductive Arranged : (pending : Option Connective) → List Lexeme → (nodes : List Formula) → Prop
  | nil (p : Option Connective) : Arranged p [] (waiting p)
  | connective {c : Connective} {ls : List Lexeme} {nodes : List Formula}
      (rest : Arranged (some c) ls nodes) : Arranged none (.connective c :: ls) nodes
  | leaf {p : Option Connective} {x : Lexeme} {f : Formula} {ls : List Lexeme}
      {nodes : List Formula} (leaf : x.leaf? = some f) (rest : Arranged none ls nodes) :
      Arranged p (x :: ls) (f :: waiting p ++ nodes)
  | group {p : Option Connective} {body ls : List Lexeme} {inner outer : List Formula}
      (group : Arranged none body inner) (rest : Arranged none ls outer) :
      Arranged p (.opening :: body ++ .closing :: ls) (inner ++ waiting p ++ outer)
  | negation {p : Option Connective} {body ls : List Lexeme} {inner outer : List Formula}
      (group : Arranged none body inner) (rest : Arranged none ls outer) :
      Arranged p (.negation :: .opening :: body ++ .closing :: ls)
        (inner ++ .not .hole :: waiting p ++ outer)

/-! ## Parentheses of arranged lexemes -/

theorem balanced_cons {x : Lexeme} {ls : List Lexeme} (ho : x ≠ .opening) (hc : x ≠ .closing) :
    Balanced (x :: ls) ↔ Balanced ls := by
  unfold Balanced
  rw [levelAfter, if_neg (fun h => hc h.1)]
  cases x <;> first | rfl | contradiction

theorem nesting_cons {x : Lexeme} {ls : List Lexeme} (ho : x ≠ .opening) :
    nesting (x :: ls) = nesting ls := by
  unfold nesting
  rw [deepest, Nat.max_eq_right (Nat.zero_le _)]
  cases x <;> first | rfl | contradiction

theorem Lexeme.ne_of_leaf? {x : Lexeme} {f : Formula} (h : x.leaf? = some f) :
    x ≠ .opening ∧ x ≠ .closing := by
  constructor <;> rintro rfl <;> cases h

theorem Lexeme.arity_of_leaf? {x : Lexeme} {f : Formula} (h : x.leaf? = some f) :
    f.arity = 0 := by
  cases x <;> cases h <;> rfl

theorem Arranged.balanced {p : Option Connective} {ls : List Lexeme} {nodes : List Formula}
    (h : Arranged p ls nodes) : Balanced ls := by
  have hgroup : ∀ {body ls : List Lexeme}, Balanced body → Balanced ls →
      Balanced (.opening :: body ++ .closing :: ls) := by
    intro body ls hb hl
    have := hb.group.append hl
    simpa using this
  induction h with
  | nil => exact Balanced.nil
  | connective _ ih => exact (balanced_cons (by simp) (by simp)).mpr ih
  | leaf hx _ ih =>
    obtain ⟨ho, hc⟩ := Lexeme.ne_of_leaf? hx
    exact (balanced_cons ho hc).mpr ih
  | group _ _ ihb ihl => exact hgroup ihb ihl
  | negation _ _ ihb ihl => exact (balanced_cons (by simp) (by simp)).mpr (hgroup ihb ihl)

/-! ## The depth limit -/

/-- Groups that are nested `n` deep may stand inside `depth` groups. -/
def Within (maxDepth : Int) (depth n : Nat) : Prop := n = 0 ∨ ((depth + n : Nat) : Int) ≤ maxDepth

instance (maxDepth : Int) (depth n : Nat) : Decidable (Within maxDepth depth n) :=
  inferInstanceAs (Decidable (_ ∨ _))

theorem within_max {maxDepth : Int} {depth m n : Nat} :
    Within maxDepth depth (max m n) ↔ Within maxDepth depth m ∧ Within maxDepth depth n := by
  unfold Within
  omega

theorem within_succ {maxDepth : Int} {depth n : Nat} :
    Within maxDepth depth (n + 1) ↔ (depth : Int) < maxDepth ∧ Within maxDepth (depth + 1) n := by
  unfold Within
  omega

theorem not_within_of_le {maxDepth : Int} {depth n : Nat} (h : maxDepth ≤ depth) (hn : 0 < n) :
    ¬Within maxDepth depth n := by
  unfold Within
  omega

/-! ## What `arrange` does with its first tokens -/

section Equations

variable {maxDepth : Int} {source : String} {depth : Nat} {pending : Option Connective}
  {t u : Token} {rest body after : List Token}

theorem group?_append {opener : Token} (hu : u.lexeme = .closing)
    (hb : Balanced (lexemes body)) :
    group? source opener (body ++ u :: after) = .ok (body, after) := by
  unfold group?
  rw [splitGroup_eq_some_iff.mpr ⟨u, hu, rfl, hb⟩]

theorem arrange_leaf {f : Formula} (h : t.lexeme.leaf? = some f) :
    arrange maxDepth source depth pending (t :: rest) = (do
      let after ← arrange maxDepth source depth none rest
      return f :: waiting pending ++ after) := by
  rw [arrange.eq_def]
  cases ht : t.lexeme <;> simp_all [Lexeme.leaf?]

theorem arrange_opening (ht : t.lexeme = .opening) :
    arrange maxDepth source depth pending (t :: rest) =
      if maxDepth ≤ depth then .error (.tooDeep maxDepth source)
      else do
        let (body, after) ← group? source t rest
        let inner ← arrange maxDepth source (depth + 1) none body
        let outer ← arrange maxDepth source depth none after
        return inner ++ waiting pending ++ outer := by
  rw [arrange.eq_def]
  simp only [ht]
  split
  · rfl
  · split
    · next h => rw [h]; rfl
    · next h => rw [h]; rfl

theorem arrange_fused {v : Token} (ht : t.lexeme = .negation) (hv : v.lexeme = .opening) :
    arrange maxDepth source depth pending (t :: v :: rest) =
      if maxDepth ≤ depth then .error (.tooDeep maxDepth source)
      else do
        let (body, after) ← group? source t rest
        let inner ← arrange maxDepth source (depth + 1) none body
        let outer ← arrange maxDepth source depth none after
        return inner ++ .not .hole :: waiting pending ++ outer := by
  rw [arrange.eq_def]
  simp only [ht, hv, ne_eq, not_true_eq_false, if_false]
  split
  · rfl
  · split
    · next h => rw [h]; rfl
    · next h => rw [h]; rfl

theorem arrange_group (ht : t.lexeme = .opening) (hu : u.lexeme = .closing)
    (hb : Balanced (lexemes body)) :
    arrange maxDepth source depth pending (t :: body ++ u :: after) =
      if maxDepth ≤ depth then .error (.tooDeep maxDepth source)
      else do
        let inner ← arrange maxDepth source (depth + 1) none body
        let outer ← arrange maxDepth source depth none after
        return inner ++ waiting pending ++ outer := by
  rw [List.cons_append, arrange_opening ht, group?_append hu hb]
  rfl

theorem arrange_negation {v : Token} (ht : t.lexeme = .negation) (hv : v.lexeme = .opening)
    (hu : u.lexeme = .closing) (hb : Balanced (lexemes body)) :
    arrange maxDepth source depth pending (t :: v :: body ++ u :: after) =
      if maxDepth ≤ depth then .error (.tooDeep maxDepth source)
      else do
        let inner ← arrange maxDepth source (depth + 1) none body
        let outer ← arrange maxDepth source depth none after
        return inner ++ .not .hole :: waiting pending ++ outer := by
  rw [List.cons_append, List.cons_append, arrange_fused ht hv, group?_append hu hb]
  rfl

end Equations

/-! ## The relation and the function -/

theorem lexemes_eq_cons_iff {ts : List Token} {x : Lexeme} {ls : List Lexeme} :
    lexemes ts = x :: ls ↔ ∃ t us, ts = t :: us ∧ t.lexeme = x ∧ lexemes us = ls :=
  List.map_eq_cons_iff

theorem lexemes_eq_append_iff {ts : List Token} {xs ys : List Lexeme} :
    lexemes ts = xs ++ ys ↔ ∃ us vs, ts = us ++ vs ∧ lexemes us = xs ∧ lexemes vs = ys :=
  List.map_eq_append_iff

/-- A group is arranged one level deeper than what follows it. -/
theorem bind_within {maxDepth : Int} {source : String} {depth m n : Nat}
    {inner outer : List Formula} {a b : Except Error (List Formula)}
    (f : List Formula → List Formula → List Formula)
    (ha : a = if Within maxDepth (depth + 1) m then .ok inner
      else .error (.tooDeep maxDepth source))
    (hb : b = if Within maxDepth depth n then .ok outer else .error (.tooDeep maxDepth source)) :
    (if maxDepth ≤ depth then .error (.tooDeep maxDepth source)
      else do
        let i ← a
        let o ← b
        return f i o) =
      if Within maxDepth depth (max (m + 1) n) then .ok (f inner outer)
      else .error (.tooDeep maxDepth source) := by
  rw [ha, hb]
  by_cases hd : maxDepth ≤ depth
  · rw [if_pos hd, if_neg (not_within_of_le hd (by omega))]
  · rw [if_neg hd]
    simp only [within_max, within_succ, Int.not_le.mp hd, true_and]
    by_cases hm : Within maxDepth (depth + 1) m <;> by_cases hn : Within maxDepth depth n <;>
      simp [hm, hn, bind, Except.bind, pure, Except.pure]

/-- Lexemes in fold order are accepted exactly if their groups are within the depth limit. -/
theorem arrange_of_arranged {maxDepth : Int} {source : String} {p : Option Connective}
    {ts : List Token} {nodes : List Formula} (h : Arranged p (lexemes ts) nodes) (depth : Nat) :
    arrange maxDepth source depth p ts =
      if Within maxDepth depth (nesting (lexemes ts)) then .ok nodes
      else .error (.tooDeep maxDepth source) := by
  generalize hls : lexemes ts = ls at h ⊢
  -- by induction on the arrangement, at every depth, since groups are arranged one level deeper
  induction h generalizing ts depth with
  | nil p =>
    obtain rfl : ts = [] := List.map_eq_nil_iff.mp hls
    rw [if_pos (.inl rfl), arrange.eq_def]
  | connective _ ih =>
    obtain ⟨t, us, rfl, ht, rfl⟩ := lexemes_eq_cons_iff.mp hls
    rw [nesting_cons (by simp), ← ih depth rfl, arrange.eq_def]
    simp only [ht]
  | leaf hx _ ih =>
    obtain ⟨t, us, rfl, rfl, rfl⟩ := lexemes_eq_cons_iff.mp hls
    rw [nesting_cons (Lexeme.ne_of_leaf? hx).1, arrange_leaf hx, ih depth rfl]
    split <;> rfl
  | group hb _ ihb ihl =>
    obtain ⟨us, vs, rfl, hus, hvs⟩ := lexemes_eq_append_iff.mp hls
    obtain ⟨t, us, rfl, ht, rfl⟩ := lexemes_eq_cons_iff.mp hus
    obtain ⟨u, vs, rfl, hu, rfl⟩ := lexemes_eq_cons_iff.mp hvs
    rw [arrange_group ht hu hb.balanced, nesting_group _ hb.balanced]
    exact bind_within _ (ihb (depth + 1) rfl) (ihl depth rfl)
  | negation hb _ ihb ihl =>
    obtain ⟨us, vs, rfl, hus, hvs⟩ := lexemes_eq_append_iff.mp hls
    obtain ⟨t, us, rfl, ht, hus⟩ := lexemes_eq_cons_iff.mp hus
    obtain ⟨v, us, rfl, hv, rfl⟩ := lexemes_eq_cons_iff.mp hus
    obtain ⟨u, vs, rfl, hu, rfl⟩ := lexemes_eq_cons_iff.mp hvs
    rw [arrange_negation ht hv hu hb.balanced, List.cons_append, nesting_cons (by simp),
      nesting_group _ hb.balanced]
    exact bind_within _ (ihb (depth + 1) rfl) (ihl depth rfl)

/-! ## The answers of `arrange` -/

/-- What `arrange` may answer for tokens with these lexemes. -/
inductive ArrangeAnswer (maxDepth : Int) (source : String) (depth : Nat) (p : Option Connective)
    (ls : List Lexeme) (answer : Except Error (List Formula)) : Prop
  | ok (nodes : List Formula) (heq : answer = .ok nodes) (arranged : Arranged p ls nodes)
  | grammar (fault : Fault) (position : Nat)
      (heq : answer = .error (.grammar fault source position))
  | tooDeep (heq : answer = .error (.tooDeep maxDepth source))
      (deep : Fused ls → ¬Within maxDepth depth (nesting ls))

theorem group?_eq_ok {source : String} {opener : Token} {ts body after : List Token}
    (h : group? source opener ts = .ok (body, after)) :
    Balanced (lexemes body) ∧ lexemes ts = lexemes body ++ .closing :: lexemes after := by
  unfold group? at h
  split at h
  · next hs =>
    cases h
    obtain ⟨u, hu, rfl, hb⟩ := splitGroup_eq_some_iff.mp hs
    exact ⟨hb, by simp [hu]⟩
  · cases h

theorem group?_eq_error {source : String} {opener : Token} {ts : List Token} {e : Error}
    (h : group? source opener ts = .error e) : e = .grammar .unclosed source opener.position := by
  unfold group? at h
  split at h <;> cases h
  rfl

/-- A lexeme before the others changes neither what their nesting is nor that they are fused. -/
theorem ArrangeAnswer.cons {maxDepth : Int} {source : String} {depth : Nat}
    {p q : Option Connective} {x : Lexeme} {ls : List Lexeme} {a : Except Error (List Formula)}
    {f : List Formula → List Formula} (hx : x ≠ .opening)
    (ha : ArrangeAnswer maxDepth source depth q ls a)
    (hf : ∀ {nodes}, Arranged q ls nodes → Arranged p (x :: ls) (f nodes)) :
    ArrangeAnswer maxDepth source depth p (x :: ls) (do
      let nodes ← a
      return f nodes) := by
  cases ha with
  | ok nodes heq h => exact .ok _ (by rw [heq]; rfl) (hf h)
  | grammar fault position heq => exact .grammar fault position (by rw [heq]; rfl)
  | tooDeep heq deep =>
    refine .tooDeep (by rw [heq]; rfl) fun hfused => ?_
    rw [nesting_cons hx]
    exact deep hfused.2

/-- The answers for a group and for what follows it, put together. -/
theorem ArrangeAnswer.bind {maxDepth : Int} {source : String} {depth : Nat}
    {p : Option Connective} {body rest ls : List Lexeme} {a b : Except Error (List Formula)}
    {f : List Formula → List Formula → List Formula}
    (hn : nesting ls = max (nesting body + 1) (nesting rest))
    (hfused : Fused ls → Fused body ∧ Fused rest)
    (ha : ArrangeAnswer maxDepth source (depth + 1) none body a)
    (hb : ArrangeAnswer maxDepth source depth none rest b)
    (hf : ∀ {inner outer}, Arranged none body inner → Arranged none rest outer →
      Arranged p ls (f inner outer)) :
    ArrangeAnswer maxDepth source depth p ls (do
      let inner ← a
      let outer ← b
      return f inner outer) := by
  cases ha with
  | grammar fault position heq => exact .grammar fault position (by rw [heq]; rfl)
  | tooDeep heq deep =>
    refine .tooDeep (by rw [heq]; rfl) fun h hw => deep (hfused h).1 ?_
    rw [hn, within_max, within_succ] at hw
    exact hw.1.2
  | ok inner heq ha =>
    cases hb with
    | ok outer heq' hb => exact .ok _ (by rw [heq, heq']; rfl) (hf ha hb)
    | grammar fault position heq' => exact .grammar fault position (by rw [heq, heq']; rfl)
    | tooDeep heq' deep =>
      refine .tooDeep (by rw [heq, heq']; rfl) fun h hw => deep (hfused h).2 ?_
      rw [hn, within_max] at hw
      exact hw.2

/-- Every answer of `arrange` is fold order, a fault of the grammar, or a depth beyond the limit. -/
theorem arrange_answer (maxDepth : Int) (source : String) (depth : Nat) (p : Option Connective)
    (ts : List Token) :
    ArrangeAnswer maxDepth source depth p (lexemes ts) (arrange maxDepth source depth p ts) := by
  have hopening : ∀ ls : List Lexeme, 0 < nesting (.opening :: ls) := by
    intro ls
    show 0 < max 0 (deepest 1 ls)
    have := le_deepest 1 ls
    omega
  fun_induction arrange maxDepth source depth p ts with
  | case1 depth p => exact .ok _ rfl (.nil p)
  | case2 | case10 | case11 | case14 | case15 => exact .grammar _ _ rfl
  | case3 depth t rest c ht ih =>
    rw [lexemes_cons, ht]
    simpa using ih.cons (f := id) (by simp) Arranged.connective
  | case4 depth p t rest s ht ih =>
    rw [lexemes_cons, ht]
    exact ih.cons (by simp) (Arranged.leaf rfl)
  | case5 depth p t rest b spelling ht ih =>
    rw [lexemes_cons, ht]
    exact ih.cons (by simp) (Arranged.leaf rfl)
  | case6 depth p t rest ht hd =>
    rw [lexemes_cons, ht]
    exact .tooDeep rfl fun _ => not_within_of_le hd (hopening _)
  | case7 depth p t rest ht hd e he =>
    rw [group?_eq_error he]
    exact .grammar _ _ rfl
  | case8 depth p t rest ht hd body after hg ihb iha =>
    obtain ⟨hb, hls⟩ := group?_eq_ok hg
    rw [lexemes_cons, ht, hls]
    exact .bind (nesting_group _ hb) Fused.group_parts ihb iha Arranged.group
  | case9 depth p t rest ht hd =>
    rw [lexemes_cons, ht]
    refine .tooDeep rfl fun hfused => not_within_of_le hd ?_
    rw [nesting_cons (by simp)]
    have hhead := hfused.1 rfl
    cases hls : lexemes rest with
    | nil => rw [hls] at hhead; cases hhead
    | cons x ls =>
      rw [hls] at hhead
      cases hhead
      exact hopening ls
  | case12 depth p t ht hd u rest hu e he =>
    rw [group?_eq_error he]
    exact .grammar _ _ rfl
  | case13 depth p t ht hd u rest hu body after hg ihb iha =>
    obtain ⟨hb, hls⟩ := group?_eq_ok hg
    rw [lexemes_cons, lexemes_cons, ht, Decidable.not_not.mp hu, hls]
    refine .bind ?_ (fun h => Fused.group_parts h.2) ihb iha Arranged.negation
    rw [nesting_cons (by simp)]
    exact nesting_group _ hb

/-- Tokens are put into fold order exactly if their lexemes have one and are within the limit. -/
theorem foldOrder_eq_ok_iff {ts : List Token} {maxDepth : Int} {source : String}
    {nodes : List Formula} :
    foldOrder ts maxDepth source = .ok nodes ↔
      Arranged none (lexemes ts) nodes ∧ Within maxDepth 0 (nesting (lexemes ts)) := by
  unfold foldOrder
  constructor
  · intro h
    cases arrange_answer maxDepth source 0 none ts with
    | ok nodes' heq harr =>
      obtain rfl : nodes' = nodes := by rw [h] at heq; cases heq; rfl
      rw [arrange_of_arranged harr] at h
      split at h
      · next hw => exact ⟨harr, hw⟩
      · cases h
    | grammar _ _ heq => rw [h] at heq; cases heq
    | tooDeep heq => rw [h] at heq; cases heq
  · rintro ⟨harr, hw⟩
    rw [arrange_of_arranged harr, if_pos hw]

end FlagLogic
