import FlagLogic.Formula.FoldOrder

/-!
Nesting of parentheses in token lists. `levelAfter` counts the groups that are open, `nesting` is
the greatest number of groups that are open at once, and a list is `Balanced` if every parenthesis
in it has a partner. Main statements: a group is cut out exactly where its own opening parenthesis
is closed (`splitGroup_eq_some_iff`), and the nesting of a list that starts with a group
(`nesting_group`).
-/

namespace FlagLogic

open FoldOrder

/-- The lexemes of tokens, without their offsets. -/
def lexemes (ts : List Token) : List Lexeme := ts.map Token.lexeme

@[simp] theorem lexemes_nil : lexemes [] = [] := rfl

@[simp] theorem lexemes_cons (t : Token) (ts : List Token) :
    lexemes (t :: ts) = t.lexeme :: lexemes ts := rfl

@[simp] theorem lexemes_append (ts us : List Token) :
    lexemes (ts ++ us) = lexemes ts ++ lexemes us := List.map_append

/-! ## Levels -/

/-- The number of groups that are open after a lexeme, where `level` groups are open before it. -/
def Lexeme.enter (level : Nat) : Lexeme → Nat
  | .opening => level + 1
  | .closing => level - 1
  | _ => level

/-- The number of groups that are open after the lexemes, where `level` groups are open before
them; none if a closing parenthesis has no partner. -/
def levelAfter (level : Nat) : List Lexeme → Option Nat
  | [] => some level
  | x :: ls => if x = .closing ∧ level = 0 then none else levelAfter (x.enter level) ls

/-- The greatest number of groups that are open at once, where `level` groups are open before the
lexemes. -/
def deepest (level : Nat) : List Lexeme → Nat
  | [] => level
  | x :: ls => max level (deepest (x.enter level) ls)

/-- How deep groups are nested in the lexemes. -/
def nesting (ls : List Lexeme) : Nat := deepest 0 ls

/-- Every parenthesis has a partner. -/
def Balanced (ls : List Lexeme) : Prop := levelAfter 0 ls = some 0

theorem le_deepest (level : Nat) : ∀ ls : List Lexeme, level ≤ deepest level ls
  | [] => Nat.le_refl _
  | _ :: _ => Nat.le_max_left ..

theorem levelAfter_append (ys : List Lexeme) : ∀ (level : Nat) (xs : List Lexeme),
    levelAfter level (xs ++ ys) = (levelAfter level xs).bind (levelAfter · ys)
  | _, [] => rfl
  | level, x :: xs => by
    simp only [List.cons_append, levelAfter]
    split
    · rfl
    · exact levelAfter_append ys _ xs

theorem Lexeme.enter_add (k : Nat) {level : Nat} {x : Lexeme}
    (h : ¬(x = .closing ∧ level = 0)) : x.enter (level + k) = x.enter level + k := by
  cases x with
  | opening => exact Nat.add_right_comm ..
  | closing =>
    have hpos : level ≠ 0 := fun h0 => h ⟨rfl, h0⟩
    simp only [enter]
    omega
  | _ => rfl

/-- Further groups around the lexemes stay open. -/
theorem levelAfter_add (k : Nat) : ∀ {level m : Nat} {ls : List Lexeme},
    levelAfter level ls = some m → levelAfter (level + k) ls = some (m + k)
  | _, _, [], h => by cases h; rfl
  | level, m, x :: ls, h => by
    rw [levelAfter] at h ⊢
    split at h
    · cases h
    · next hx =>
      rw [if_neg (fun hk => hx ⟨hk.1, by omega⟩), Lexeme.enter_add k hx]
      exact levelAfter_add k h

theorem deepest_add (k : Nat) : ∀ {level m : Nat} {ls : List Lexeme},
    levelAfter level ls = some m → deepest (level + k) ls = deepest level ls + k
  | _, _, [], _ => rfl
  | level, m, x :: ls, h => by
    rw [levelAfter] at h
    split at h
    · cases h
    · next hx =>
      have ih := deepest_add k h
      simp only [deepest, Lexeme.enter_add k hx, ih]
      omega

theorem deepest_append (ys : List Lexeme) : ∀ {level m : Nat} {xs : List Lexeme},
    levelAfter level xs = some m →
      deepest level (xs ++ ys) = max (deepest level xs) (deepest m ys)
  | level, _, [], h => by
    cases h
    exact (Nat.max_eq_right (le_deepest level ys)).symm
  | level, m, x :: xs, h => by
    rw [levelAfter] at h
    split at h
    · cases h
    · have ih := deepest_append ys h
      simp only [List.cons_append, deepest, ih, Nat.max_assoc]

/-! ## Balanced lists -/

namespace Balanced

theorem levelAfter_eq {ls : List Lexeme} (h : Balanced ls) (level : Nat) :
    levelAfter level ls = some level := by
  have := levelAfter_add level h
  rwa [Nat.zero_add] at this

theorem nil : Balanced [] := rfl

theorem append {xs ys : List Lexeme} (hx : Balanced xs) (hy : Balanced ys) :
    Balanced (xs ++ ys) := by
  unfold Balanced
  rw [levelAfter_append, hx]
  exact hy

theorem group {body : List Lexeme} (h : Balanced body) :
    Balanced (.opening :: body ++ [.closing]) := by
  show levelAfter 1 (body ++ [.closing]) = some 0
  rw [levelAfter_append, h.levelAfter_eq]
  rfl

end Balanced

theorem nesting_append {xs : List Lexeme} (ys : List Lexeme) (h : Balanced xs) :
    nesting (xs ++ ys) = max (nesting xs) (nesting ys) :=
  deepest_append ys h

/-- A group is one level deeper than its body. -/
theorem nesting_group {body : List Lexeme} (after : List Lexeme) (h : Balanced body) :
    nesting (.opening :: body ++ .closing :: after) = max (nesting body + 1) (nesting after) := by
  have hadd : deepest (0 + 1) body = nesting body + 1 := deepest_add 1 h
  calc nesting (.opening :: body ++ .closing :: after)
      = max 0 (deepest (0 + 1) (body ++ .closing :: after)) := rfl
    _ = max 0 (max (nesting body + 1) (max (0 + 1) (nesting after))) := by
        rw [deepest_append _ (h.levelAfter_eq _), hadd]; rfl
    _ = max (nesting body + 1) (nesting after) := by omega

/-! ## Fused negations -/

/-- Every negation stands right before an opening parenthesis. -/
def Fused : List Lexeme → Prop
  | [] => True
  | x :: ls => (x = .negation → ls.head? = some .opening) ∧ Fused ls

theorem Fused.append {xs ys : List Lexeme} (h : Fused (xs ++ ys)) : Fused ys := by
  induction xs with
  | nil => exact h
  | cons x xs ih => exact ih h.2

/-- A stretch that another lexeme follows keeps its negations, since none of them can be last. -/
theorem Fused.left {xs ys : List Lexeme} {y : Lexeme} (hy : y ≠ .opening)
    (h : Fused (xs ++ y :: ys)) : Fused xs := by
  induction xs with
  | nil => trivial
  | cons x xs ih =>
    refine ⟨fun hx => ?_, ih h.2⟩
    have hhead := h.1 hx
    cases xs with
    | nil => exact absurd (Option.some.inj hhead) hy
    | cons x' xs => exact hhead

/-- What stands in a group and behind it keeps its negations. -/
theorem Fused.group_parts {body rest : List Lexeme}
    (h : Fused (.opening :: body ++ .closing :: rest)) : Fused body ∧ Fused rest :=
  ⟨Fused.left (by simp) h.2, (Fused.append h.2).2⟩

/-! ## Groups cut out of tokens -/

theorem splitGroup_cons (level : Nat) (t : Token) (rest : List Token) :
    splitGroup level (t :: rest) =
      if t.lexeme = .closing ∧ level = 0 then some ([], rest)
      else (splitGroup (t.lexeme.enter level) rest).map
        fun (body, after) => (t :: body, after) := by
  rw [splitGroup.eq_def]
  cases ht : t.lexeme <;> cases level <;> simp [Lexeme.enter, ht]

/-- A group is cut out exactly where its own opening parenthesis is closed. -/
theorem splitGroup_eq_some_iff {level : Nat} {tokens body after : List Token} :
    splitGroup level tokens = some (body, after) ↔
      ∃ t, t.lexeme = .closing ∧ tokens = body ++ t :: after
        ∧ levelAfter level (lexemes body) = some 0 := by
  induction tokens generalizing level body with
  | nil => simp [splitGroup]
  | cons u rest ih =>
    rw [splitGroup_cons]
    constructor
    · intro h
      split at h
      · next hu =>
        cases h
        exact ⟨u, hu.1, rfl, by rw [hu.2]; rfl⟩
      · next hu =>
        obtain ⟨⟨b, a⟩, hs, heq⟩ := Option.map_eq_some_iff.mp h
        cases heq
        obtain ⟨t, ht, rfl, hl⟩ := ih.mp hs
        exact ⟨t, ht, rfl, by rw [lexemes_cons, levelAfter, if_neg hu, hl]⟩
    · rintro ⟨t, ht, htok, hl⟩
      cases body with
      | nil =>
        obtain ⟨rfl, rfl⟩ : u = t ∧ rest = after := by simpa using htok
        have h0 : level = 0 := by simpa [levelAfter] using hl
        rw [if_pos ⟨ht, h0⟩]
      | cons v body =>
        obtain ⟨rfl, rfl⟩ : u = v ∧ rest = body ++ t :: after := by simpa using htok
        rw [lexemes_cons, levelAfter] at hl
        split at hl
        · cases hl
        · next hu =>
          rw [if_neg hu, ih.mpr ⟨t, ht, rfl, hl⟩]
          rfl

end FlagLogic
