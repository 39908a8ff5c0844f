import FlagLogic.Error
import FlagLogic.Formula

/-!
Fold order. Tokens are put into the order in which a stack folds them into a formula: each operator
stands right after its last operand. The connectives have equal precedence and combine from left to
right, so at most one connective waits for its right operand at any point. Groups are arranged on
their own and spliced in place; a negation follows the operand it negates.
-/

namespace FlagLogic.FoldOrder

/-- The tokens of a group and the tokens after its closing parenthesis, where `level` further groups
are open inside it. -/
def splitGroup (level : Nat) : List Token → Option (List Token × List Token)
  | [] => none
  | t :: rest =>
    match t.lexeme, level with
    | .closing, 0 => some ([], rest)
    | .closing, level + 1 => (splitGroup level rest).map fun (body, after) => (t :: body, after)
    | .opening, level => (splitGroup (level + 1) rest).map fun (body, after) => (t :: body, after)
    | _, level => (splitGroup level rest).map fun (body, after) => (t :: body, after)

/-- A group with its closing parenthesis and what follows it make up the tokens. -/
theorem splitGroup_length {level : Nat} {tokens body after : List Token}
    (h : splitGroup level tokens = some (body, after)) :
    body.length + after.length + 1 = tokens.length := by
  fun_induction splitGroup level tokens generalizing body after with
  | case1 => simp at h
  | case2 => simp at h; obtain ⟨rfl, rfl⟩ := h; simp
  | case3 _ _ _ _ ih | case4 _ _ _ _ ih | case5 _ _ _ _ _ _ ih =>
    simp only [Option.map_eq_some_iff] at h
    obtain ⟨⟨b, a⟩, hs, heq⟩ := h
    simp only [Prod.mk.injEq] at heq
    obtain ⟨rfl, rfl⟩ := heq
    have := ih hs
    simp only [List.length_cons]
    omega

/-- The connective that waits for its right operand, as a node of its own. -/
def waiting : Option Connective → List Formula
  | some c => [.binary c .hole .hole]
  | none => []

/-- The tokens of a group after its opening parenthesis, and what follows the group. -/
def group? (source : String) (opener : Token) (tokens : List Token) :
    Except Error (List Token × List Token) :=
  match splitGroup 0 tokens with
  | some parts => .ok parts
  | none => .error (.grammar .unclosed source opener.position)

theorem group?_length {source : String} {opener : Token} {tokens body after : List Token}
    (h : group? source opener tokens = .ok (body, after)) :
    body.length + after.length + 1 = tokens.length := by
  unfold group? at h
  split at h
  · next parts hs =>
    cases h
    exact splitGroup_length hs
  · cases h

/-- Arranges tokens that stand inside `depth` groups. `pending` is the connective that waits for its
right operand. -/
def arrange (maxDepth : Int) (source : String) (depth : Nat) (pending : Option Connective)
    (tokens : List Token) : Except Error (List Formula) :=
  match tokens with
  | [] => .ok (waiting pending)
  | t :: rest =>
    match t.lexeme with
    | .connective c =>
      match pending with
      | some p => .error (.grammar (.operandBetween p c) source t.position)
      | none => arrange maxDepth source depth (some c) rest
    | .name s => do
      let after ← arrange maxDepth source depth none rest
      return .setting s :: waiting pending ++ after
    | .literal b _ => do
      let after ← arrange maxDepth source depth none rest
      return .literal b :: waiting pending ++ after
    | .opening =>
      if maxDepth ≤ depth then .error (.tooDeep maxDepth source)
      else
        match _h : group? source t rest with
        | .error e => .error e
        | .ok (body, after) => do
          let inner ← arrange maxDepth source (depth + 1) none body
          let outer ← arrange maxDepth source depth none after
          return inner ++ waiting pending ++ outer
    | .negation =>
      if maxDepth ≤ depth then .error (.tooDeep maxDepth source)
      else
        match rest with
        | [] => .error (.grammar .openingAfterNot source t.position)
        | next :: rest =>
          if next.lexeme ≠ .opening then .error (.grammar .openingAfterNot source t.position)
          else
            match _h : group? source t rest with
            | .error e => .error e
            | .ok (body, after) => do
              let inner ← arrange maxDepth source (depth + 1) none body
              let outer ← arrange maxDepth source depth none after
              return inner ++ .not .hole :: waiting pending ++ outer
    | .closing => .error (.grammar .unexpectedClosing source t.position)
    | .unknown kind => .error (.grammar (.unknownToken kind) source t.position)
termination_by tokens.length
decreasing_by
  · simp
  · simp
  · simp
  all_goals
    have := group?_length ‹group? _ _ _ = .ok _›
    simp only [List.length_cons]
    omega

end FlagLogic.FoldOrder

namespace FlagLogic

/-- Puts tokens into fold order. Operator nodes have no operands yet. A connective without a right
operand is put at the end of its group, for folding to reject. -/
def foldOrder (tokens : List Token) (maxDepth : Int) (source : String) :
    Except Error (List Formula) :=
  FoldOrder.arrange maxDepth source 0 none tokens

end FlagLogic
