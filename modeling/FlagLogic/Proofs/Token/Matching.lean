import FlagLogic.Proofs.Token.Parentheses
import FlagLogic.Proofs.Token.Reading

/-!
Matching parentheses. A stack holds the opening parentheses that wait for a partner, and a closing one
takes the latest of them. Main statements: a text and its tokens have the same parentheses at the same
offsets (`filter_isParen_of_tokenize`), so that matching them comes to the same (`unmatched_eq`);
balanced tokens leave the stack as it was (`readAll_of_balanced`), and what stands behind them decides
which parenthesis is the first one without a partner (`head?_closings`, `head?_openings`); the first
one is the leftmost (`ascending_unmatched`).
-/

namespace FlagLogic

open Text FoldOrder

/-! ## Parentheses at their offsets -/

/-- The token is a parenthesis. -/
def Token.isParen (t : Token) : Bool := t.lexeme.isParen

/-- The parentheses of a text that begins at an offset, as tokens. -/
def parenTokens (start : Nat) (cs : List Char) : List Token :=
  (cs.zipIdx start).filterMap fun (c, i) => (parenOfChar? c).map fun x => ⟨x, i⟩

theorem parenTokens_append (start : Nat) (cs ds : List Char) :
    parenTokens start (cs ++ ds) = parenTokens start cs ++ parenTokens (start + cs.length) ds := by
  simp [parenTokens, List.zipIdx_append]

theorem parenTokens_of_forall (start : Nat) {cs : List Char} (h : ∀ c ∈ cs, isParen c = false) :
    parenTokens start cs = [] := by
  refine List.filterMap_eq_nil_iff.mpr ?_
  intro ci hci
  have hc := h ci.1 (List.fst_mem_of_mem_zipIdx hci)
  simp_all [isParen, parenOfChar?]

theorem parenTokens_of_word (start : Nat) {word : List Char} (h : ∀ c ∈ word, isWordChar c) :
    parenTokens start word = [] := by
  refine parenTokens_of_forall start ?_
  intro c hc
  have := h c hc
  simp_all [isWordChar]

theorem parenTokens_of_blank (start : Nat) {blanks : List Char} (h : ∀ c ∈ blanks, isBlank c) :
    parenTokens start blanks = [] :=
  parenTokens_of_forall start fun c hc => isParen_of_isBlank (h c hc)

theorem filter_isParen_ofPiece? (start : Nat) (piece : List Char) :
    (Token.ofPiece? start piece).toList.filter Token.isParen = [] := by
  refine List.filter_eq_nil_iff.mpr ?_
  intro t ht
  have hflat := flat_pieceLexemes piece
  rw [← lexemes_ofPiece? start] at hflat
  have := hflat t.lexeme (List.mem_map_of_mem ht)
  simp [Token.isParen, Lexeme.isParen, this]

/-- What ends a piece is a parenthesis, or has none in it. -/
theorem Ends.parenTokens_eq {piece mark rest : List Char} {x : Lexeme}
    (h : Ends piece mark rest x) (start : Nat) :
    parenTokens start mark = [⟨x, start⟩].filter Token.isParen := by
  cases h with
  | opening => rfl
  | closing => rfl
  | connective _ hspells _ => exact parenTokens_of_word start (isWordChar_of_connective hspells).2

/-- The parentheses among the tokens are those of the text. -/
theorem ReadAs.filter_isParen {start : Nat} {cs : List Char} {ts : List Token}
    (h : ReadAs start cs ts) : ts.filter Token.isParen = parenTokens start cs := by
  induction h with
  | @last start piece hplain =>
    rw [filter_isParen_ofPiece?, parenTokens_of_forall start hplain.noParen]
  | @mark start piece mark rest x ts hplain hends _ ih =>
    rw [List.filter_append, filter_isParen_ofPiece?, parenTokens_append, parenTokens_append,
      parenTokens_of_forall start hplain.noParen, hends.parenTokens_eq, List.length_append,
      ← Nat.add_assoc, ← ih, List.nil_append, List.nil_append, ← List.filter_append,
      List.singleton_append]
  | @negation start before word rest ts hblank hspells _ ih =>
    have hopening : parenTokens (start + before.length + word.length) ('(' :: rest)
        = ⟨.opening, start + before.length + word.length⟩
          :: parenTokens (start + before.length + word.length + 1) rest :=
      parenTokens_append _ ['('] rest
    rw [parenTokens_append, parenTokens_append, parenTokens_of_blank start hblank,
      parenTokens_of_word _ (isWordChar_of_negation hspells).2, List.length_append, ← Nat.add_assoc,
      hopening, ← ih]
    rfl

theorem filter_isParen_of_tokenize {text : String} {ts : List Token}
    (h : tokenize text = .ok ts) : ts.filter Token.isParen = parenTokens 0 text.toList :=
  (readAs_of_tokenize h).filter_isParen

/-! ## Matching with a stack -/

/-- What matching has left over so far: the offsets of closing parentheses without a partner, and the
stack of opening ones that wait for theirs, the latest one last. -/
structure Unmatched where
  closings : List Nat := []
  openings : List Nat := []
  deriving DecidableEq, Repr

namespace Unmatched

/-- An opening parenthesis is put on the stack, and a closing one takes the latest from it. -/
def read (left : Unmatched) (t : Token) : Unmatched :=
  match t.lexeme with
  | .opening => { left with openings := left.openings ++ [t.position] }
  | .closing =>
    if left.openings = [] then { left with closings := left.closings ++ [t.position] }
    else { left with openings := left.openings.dropLast }
  | _ => left

/-- Matches the parentheses among tokens. -/
def readAll (left : Unmatched) (ts : List Token) : Unmatched := ts.foldl read left

@[simp] theorem readAll_cons (left : Unmatched) (t : Token) (ts : List Token) :
    left.readAll (t :: ts) = (left.read t).readAll ts := rfl

@[simp] theorem readAll_append (left : Unmatched) (ts us : List Token) :
    left.readAll (ts ++ us) = (left.readAll ts).readAll us := List.foldl_append

theorem read_of_not_isParen (left : Unmatched) {t : Token} (h : t.isParen = false) :
    left.read t = left := by
  unfold read
  cases hx : t.lexeme <;> simp_all [Token.isParen, Lexeme.isParen]

/-- Other tokens than parentheses do not matter. -/
theorem readAll_filter (left : Unmatched) (ts : List Token) :
    left.readAll (ts.filter Token.isParen) = left.readAll ts := by
  induction ts generalizing left with
  | nil => rfl
  | cons t ts ih =>
    cases ht : t.isParen with
    | true => simp [ht, ih]
    | false => simp [ht, ih, read_of_not_isParen left ht]

/-- As long as no more groups are closed than the stack has above its bottom part, that part stays. -/
theorem readAll_of_levelAfter (closings bottom : List Nat) {k : Nat} :
    ∀ {m : Nat} (top : List Nat) (ts : List Token), levelAfter m (lexemes ts) = some k →
      top.length = m → ∃ top', top'.length = k
        ∧ readAll ⟨closings, bottom ++ top⟩ ts = ⟨closings, bottom ++ top'⟩
  | m, top, [], h, hm => by
    cases h
    exact ⟨top, hm, rfl⟩
  | m, top, t :: ts, h, hm => by
    rw [lexemes_cons, levelAfter] at h
    split at h
    · cases h
    · next hx =>
      rw [readAll_cons, read]
      cases ht : t.lexeme with
      | opening =>
        simp only [ht, Lexeme.enter] at h ⊢
        rw [List.append_assoc]
        exact readAll_of_levelAfter closings bottom _ ts h (by simp [hm])
      | closing =>
        simp only [ht, Lexeme.enter, true_and] at h hx ⊢
        have hne : top ≠ [] := by
          rintro rfl
          exact hx hm.symm
        rw [if_neg (by simp [hne]), List.dropLast_append_of_ne_nil hne]
        exact readAll_of_levelAfter closings bottom _ ts h (by simp [hm])
      | _ =>
        simp only [ht, Lexeme.enter] at h ⊢
        exact readAll_of_levelAfter closings bottom top ts h hm

theorem readAll_of_balanced {ts : List Token} (h : Balanced (lexemes ts)) (left : Unmatched) :
    left.readAll ts = left := by
  obtain ⟨top, htop, heq⟩ := readAll_of_levelAfter left.closings left.openings [] ts h rfl
  simpa [List.length_eq_zero_iff.mp htop] using heq

/-- A closing parenthesis without a partner stays one. -/
theorem prefix_closings_readAll (left : Unmatched) (ts : List Token) :
    left.closings <+: (left.readAll ts).closings := by
  induction ts generalizing left with
  | nil => exact List.prefix_refl _
  | cons t ts ih =>
    refine List.IsPrefix.trans ?_ (ih (left.read t))
    unfold read
    cases t.lexeme with
    | closing =>
      simp only
      split
      · exact List.prefix_append ..
      · exact List.prefix_refl _
    | _ => exact List.prefix_refl _

/-! ## The first parenthesis without a partner -/

variable {before rest : List Token} {t : Token}

/-- A closing parenthesis behind balanced tokens is the first one without a partner. -/
theorem head?_closings (hbefore : Balanced (lexemes before)) (ht : t.lexeme = .closing) :
    (readAll {} (before ++ t :: rest)).closings.head? = some t.position := by
  have hread : read {} t = { closings := [t.position] } := by simp [read, ht]
  rw [readAll_append, readAll_of_balanced hbefore, readAll_cons, hread]
  obtain ⟨more, hmore⟩ := prefix_closings_readAll { closings := [t.position] } rest
  rw [← hmore]
  rfl

/-- An opening parenthesis behind balanced tokens is the first one without a partner, if no more groups
are closed behind it than are opened there; and then no closing one lacks a partner. -/
theorem head?_openings (hbefore : Balanced (lexemes before)) (ht : t.lexeme = .opening) {k : Nat}
    (hrest : levelAfter 0 (lexemes rest) = some k) :
    (readAll {} (before ++ t :: rest)).closings = []
      ∧ (readAll {} (before ++ t :: rest)).openings.head? = some t.position := by
  have hread : read {} t = { openings := [t.position] ++ [] } := by simp [read, ht]
  obtain ⟨top, -, htop⟩ := readAll_of_levelAfter [] [t.position] [] rest hrest rfl
  rw [readAll_append, readAll_of_balanced hbefore, readAll_cons, hread, htop]
  exact ⟨rfl, rfl⟩

end Unmatched

/-! ## The leftmost parenthesis without a partner -/

/-- Both offsets without a partner and those that wait stand in the order of the text, before `bound`. -/
structure Unmatched.Ascending (left : Unmatched) (bound : Nat) : Prop where
  closings : left.closings.Pairwise (· < ·)
  openings : left.openings.Pairwise (· < ·)
  closings_lt : ∀ q ∈ left.closings, q < bound
  openings_lt : ∀ q ∈ left.openings, q < bound

namespace Unmatched.Ascending

variable {left : Unmatched}

theorem mono {m n : Nat} (h : left.Ascending m) (hle : m ≤ n) : left.Ascending n where
  closings := h.closings
  openings := h.openings
  closings_lt q hq := Nat.lt_of_lt_of_le (h.closings_lt q hq) hle
  openings_lt q hq := Nat.lt_of_lt_of_le (h.openings_lt q hq) hle

theorem pairwise_concat {offsets : List Nat} {bound : Nat} (h : offsets.Pairwise (· < ·))
    (hlt : ∀ q ∈ offsets, q < bound) : (offsets ++ [bound]).Pairwise (· < ·) := by
  rw [List.pairwise_append]
  refine ⟨h, List.pairwise_singleton .., ?_⟩
  intro q hq r hr
  rw [List.mem_singleton.mp hr]
  exact hlt q hq

theorem lt_concat {offsets : List Nat} {bound : Nat} (hlt : ∀ q ∈ offsets, q < bound) :
    ∀ q ∈ offsets ++ [bound], q < bound + 1 := by
  intro q hq
  rcases List.mem_append.mp hq with hq | hq
  · exact Nat.lt_succ_of_lt (hlt q hq)
  · rw [List.mem_singleton.mp hq]
    exact Nat.lt_succ_self bound

theorem read {t : Token} (h : left.Ascending t.position) :
    (left.read t).Ascending (t.position + 1) := by
  have hmore := h.mono (Nat.le_succ t.position)
  unfold Unmatched.read
  cases t.lexeme with
  | opening =>
    exact ⟨h.closings, pairwise_concat h.openings h.openings_lt, hmore.closings_lt,
      lt_concat h.openings_lt⟩
  | closing =>
    simp only
    split
    · exact ⟨pairwise_concat h.closings h.closings_lt, h.openings, lt_concat h.closings_lt,
        hmore.openings_lt⟩
    · refine ⟨h.closings, h.openings.sublist (List.dropLast_sublist _), hmore.closings_lt, ?_⟩
      intro q hq
      exact hmore.openings_lt q ((List.dropLast_sublist _).subset hq)
  | _ => exact hmore

/-- Matching reads the parentheses of a text in their order. -/
theorem readAll {start : Nat} (h : left.Ascending start) (cs : List Char) :
    (left.readAll (parenTokens start cs)).Ascending (start + cs.length) := by
  induction cs generalizing left start with
  | nil => exact h
  | cons c cs ih =>
    rw [List.length_cons, Nat.add_comm cs.length, ← Nat.add_assoc]
    rw [show parenTokens start (c :: cs) = parenTokens start [c] ++ parenTokens (start + 1) cs from
      parenTokens_append start [c] cs, readAll_append]
    refine ih ?_
    cases hx : parenOfChar? c with
    | none =>
      simp only [parenTokens, List.zipIdx_singleton, List.filterMap_cons, hx]
      exact h.mono (Nat.le_succ start)
    | some x =>
      simp only [parenTokens, List.zipIdx_singleton, List.filterMap_cons, hx]
      exact h.read

end Unmatched.Ascending

/-- What is left over when the parentheses of a text are matched. -/
def unmatched (text : String) : Unmatched := Unmatched.readAll {} (parenTokens 0 text.toList)

/-- Matching the tokens of a text comes to the same. -/
theorem unmatched_eq {text : String} {ts : List Token} (h : tokenize text = .ok ts) :
    unmatched text = Unmatched.readAll {} ts := by
  rw [unmatched, ← filter_isParen_of_tokenize h, Unmatched.readAll_filter]

theorem ascending_unmatched (text : String) :
    (unmatched text).Ascending text.toList.length := by
  have h : Unmatched.Ascending {} 0 := ⟨.nil, .nil, by simp, by simp⟩
  have hall := h.readAll text.toList
  rwa [Nat.zero_add] at hall

/-- The offset is the leftmost one of these. -/
def Leftmost (position : Nat) (offsets : List Nat) : Prop :=
  position ∈ offsets ∧ ∀ q ∈ offsets, position ≤ q

theorem leftmost_of_head? {position : Nat} {offsets : List Nat} (h : offsets.Pairwise (· < ·))
    (hhead : offsets.head? = some position) : Leftmost position offsets := by
  cases offsets with
  | nil => cases hhead
  | cons q offsets =>
    cases hhead
    refine ⟨List.mem_cons_self .., List.forall_mem_cons.mpr ⟨Nat.le_refl _, ?_⟩⟩
    intro r hr
    exact Nat.le_of_lt ((List.pairwise_cons.mp h).1 r hr)

/-! ## Groups that are not closed -/

/-- A group is not closed exactly if no more groups are closed than are opened. -/
theorem splitGroup_eq_none_iff {level : Nat} {ts : List Token} :
    splitGroup level ts = none ↔ ∃ k, levelAfter level (lexemes ts) = some k := by
  induction ts generalizing level with
  | nil => simp [splitGroup, levelAfter]
  | cons t ts ih =>
    rw [splitGroup_cons, lexemes_cons, levelAfter]
    split
    · simp
    · rw [Option.map_eq_none_iff, ih]

end FlagLogic
