import FlagLogic.Proofs.Parse.Acceptance
import FlagLogic.Proofs.Token.Positions

/-!
What parsing reports, and where. A fault of a text comes from one of three stages: a piece has other
text before a negation, a token stands where fold order has no place for it, or the sequence does not
fold (`parse_fault`). Main statement: parsing gives a formula or an error about this very text, of
one of two kinds, and a fault that is reported anywhere but at the start of the text is reported at a
character that is not blank (`parse_reports`).
-/

namespace FlagLogic

open Text FoldOrder

/-! ## Faults in answers -/

/-- If the answer is a fault of the grammar, the property holds of the fault and its offset. -/
def Blames (P : Fault → Nat → Prop) (answer : Except Error (List Formula)) : Prop :=
  ∀ fault source position, answer = .error (.grammar fault source position) → P fault position

namespace Blames

variable {P Q : Fault → Nat → Prop} {answer : Except Error (List Formula)}

theorem ok (nodes : List Formula) : Blames P (.ok nodes) := by
  intro fault source position h
  cases h

theorem tooDeep (limit : Int) (source : String) : Blames P (.error (.tooDeep limit source)) := by
  intro fault source' position h
  cases h

theorem grammar {fault : Fault} {position : Nat} (h : P fault position) (source : String) :
    Blames P (.error (.grammar fault source position)) := by
  intro fault' source' position' heq
  cases heq
  exact h

theorem mono (h : Blames P answer) (himp : ∀ fault position, P fault position → Q fault position) :
    Blames Q answer := by
  intro fault source position heq
  exact himp fault position (h fault source position heq)

theorem bind {next : List Formula → Except Error (List Formula)} (h : Blames P answer)
    (hnext : ∀ nodes, Blames P (next nodes)) : Blames P (answer >>= next) := by
  cases answer with
  | ok nodes => exact hnext nodes
  | error e =>
    intro fault source position heq
    exact h fault source position heq

end Blames

/-! ## Faults of fold order -/

/-- The faults that a lexeme is blamed for when lexemes are put into fold order. -/
inductive Blamed : Lexeme → Fault → Prop
  | connective (first second : Connective) :
      Blamed (.connective second) (.operandBetween first second)
  | opening : Blamed .opening .unclosed
  | negation : Blamed .negation .unclosed
  | closing : Blamed .closing .unexpectedClosing
  | unknown (kind : String) : Blamed (.unknown kind) (.unknownToken kind)

/-- If the answer is a fault of the grammar, one of the tokens is blamed for it. -/
def BlamesToken (ts : List Token) (answer : Except Error (List Formula)) : Prop :=
  ∀ fault source position, answer = .error (.grammar fault source position) →
    ∃ t ∈ ts, t.position = position ∧ Blamed t.lexeme fault

namespace BlamesToken

variable {ts us : List Token} {answer : Except Error (List Formula)}

theorem ok (nodes : List Formula) : BlamesToken ts (.ok nodes) := Blames.ok nodes

theorem tooDeep (limit : Int) (source : String) :
    BlamesToken ts (.error (.tooDeep limit source)) := Blames.tooDeep limit source

theorem head {t : Token} {fault : Fault} (h : Blamed t.lexeme fault) (source : String) :
    BlamesToken (t :: ts) (.error (.grammar fault source t.position)) :=
  Blames.grammar ⟨t, List.mem_cons_self .., rfl, h⟩ source

/-- More tokens leave the one that is blamed among them. -/
theorem mono (h : BlamesToken us answer) (hsub : us ⊆ ts) : BlamesToken ts answer := by
  refine Blames.mono h ?_
  rintro fault position ⟨t, ht, hblamed⟩
  exact ⟨t, hsub ht, hblamed⟩

theorem bind {next : List Formula → Except Error (List Formula)} (h : BlamesToken ts answer)
    (hnext : ∀ nodes, BlamesToken ts (next nodes)) : BlamesToken ts (answer >>= next) :=
  Blames.bind h hnext

/-- The answers for a group and for what follows it, put together. -/
theorem group {body after : List Token} {closer : Token} {a b : Except Error (List Formula)}
    {f : List Formula → List Formula → List Formula} (ha : BlamesToken body a)
    (hb : BlamesToken after b) :
    BlamesToken (body ++ closer :: after) (do
      let inner ← a
      let outer ← b
      return f inner outer) := by
  have hafter : after ⊆ body ++ closer :: after :=
    List.subset_append_of_subset_right body (List.subset_cons_self ..)
  exact (ha.mono (List.subset_append_left ..)).bind fun _ => (hb.mono hafter).bind fun _ => .ok _

end BlamesToken

/-- A group is cut out of the tokens together with its closing parenthesis. -/
theorem eq_append_of_group? {source : String} {opener : Token} {ts body after : List Token}
    (h : group? source opener ts = .ok (body, after)) :
    ∃ u, u.lexeme = .closing ∧ ts = body ++ u :: after := by
  unfold group? at h
  split at h
  · next hs =>
    cases h
    obtain ⟨u, hu, heq, -⟩ := splitGroup_eq_some_iff.mp hs
    exact ⟨u, hu, heq⟩
  · cases h

/-- Where every negation is fused to its parenthesis, a fault of fold order is reported at a token
that is to blame for it. -/
theorem arrange_blames (maxDepth : Int) (source : String) (depth : Nat) (p : Option Connective)
    (ts : List Token) (hfused : Fused (lexemes ts)) :
    BlamesToken ts (arrange maxDepth source depth p ts) := by
  fun_induction arrange maxDepth source depth p ts with
  | case1 => exact .ok _
  | case2 depth t rest c ht p =>
    refine .head ?_ source
    rw [ht]
    exact .connective p c
  | case3 depth t rest c ht ih => exact (ih hfused.2).mono (List.subset_cons_self ..)
  | case4 depth p t rest s ht ih | case5 depth p t rest b spelling ht ih =>
    exact ((ih hfused.2).mono (List.subset_cons_self ..)).bind fun _ => .ok _
  | case6 | case9 => exact .tooDeep _ _
  | case7 depth p t rest ht hd e he =>
    rw [group?_eq_error he]
    refine .head ?_ source
    rw [ht]
    exact .opening
  | case8 depth p t rest ht hd body after hg ihb iha =>
    obtain ⟨u, hu, rfl⟩ := eq_append_of_group? hg
    rw [lexemes_cons, lexemes_append, lexemes_cons, ht, hu] at hfused
    obtain ⟨hbody, hafter⟩ := Fused.group_parts hfused
    exact (BlamesToken.group (ihb hbody) (iha hafter)).mono (List.subset_cons_self ..)
  | case10 depth p t ht hd =>
    -- the last token would be a negation without its parenthesis
    cases hfused.1 ht
  | case11 depth p t ht hd u rest hu =>
    exact absurd (Option.some.inj (hfused.1 ht)) hu
  | case12 depth p t ht hd u rest hu e he =>
    rw [group?_eq_error he]
    refine .head ?_ source
    rw [ht]
    exact .negation
  | case13 depth p t ht hd u rest hu body after hg ihb iha =>
    obtain ⟨v, hv, rfl⟩ := eq_append_of_group? hg
    have hgroup : Fused (lexemes (u :: (body ++ v :: after))) := hfused.2
    rw [lexemes_cons, lexemes_append, lexemes_cons, Decidable.not_not.mp hu, hv] at hgroup
    obtain ⟨hbody, hafter⟩ := Fused.group_parts hgroup
    refine .mono ?_ (List.subset_cons_self t _)
    exact (BlamesToken.group (ihb hbody) (iha hafter)).mono (List.subset_cons_self ..)
  | case14 depth p t rest ht =>
    refine .head ?_ source
    rw [ht]
    exact .closing
  | case15 depth p t rest kind ht =>
    refine .head ?_ source
    rw [ht]
    exact .unknown kind

/-! ## Faults of folding -/

/-- A sequence that does not fold is reported as what it lacks. -/
theorem Flaw.fault_fst (ts : List Token) (flaw : Flaw) :
    (flaw.fault ts).1 = .empty ∨ (flaw.fault ts).1 = .adjacent
      ∨ (∃ c, (flaw.fault ts).1 = .operandAfter c)
      ∨ ∃ keyword, (flaw.fault ts).1 = .operandFor keyword := by
  cases flaw with
  | empty => exact .inl rfl
  | manyRoots roots => exact .inr (.inl rfl)
  | missingOperand keyword =>
    simp only [fault]
    split
    · next c position hlast => exact .inr (.inr (.inl ⟨c, rfl⟩))
    · exact .inr (.inr (.inr ⟨keyword, rfl⟩))

/-- A sequence that does not fold is reported at one of the tokens, or at the start of the text. -/
theorem Flaw.fault_position (ts : List Token) (flaw : Flaw) :
    (flaw.fault ts).2 = 0 ∨ ∃ t ∈ ts, t.position = (flaw.fault ts).2 := by
  cases flaw with
  | empty => exact .inl rfl
  | manyRoots roots => exact .inl rfl
  | missingOperand keyword =>
    simp only [fault]
    split
    · next c position hlast => exact .inr ⟨_, List.mem_of_getLast? hlast, rfl⟩
    · exact .inl rfl

/-- The fault is one that fold order reports about lexemes that no text has. -/
def Fault.Unreachable : Fault → Prop
  | openingAfterNot | unknownToken _ => True
  | _ => False

theorem Blamed.eq_unknown {x : Lexeme} {fault : Fault} (h : Blamed x fault)
    (hun : fault.Unreachable) : ∃ kind, x = .unknown kind := by
  cases h with
  | unknown kind => exact ⟨kind, rfl⟩
  | _ => exact hun.elim

theorem Flaw.not_unreachable_fault (ts : List Token) (flaw : Flaw) :
    ¬(flaw.fault ts).1.Unreachable := by
  rcases flaw.fault_fst ts with h | h | ⟨c, h⟩ | ⟨keyword, h⟩
  all_goals
    rw [h]
    exact id

/-! ## Faults of texts -/

/-- Where a fault comes from that parsing reports about a text. -/
inductive Origin (limits : Limits) (text : String) : Fault → Nat → Prop
  /-- A piece of the text has other text before a negation. -/
  | stray {i j : Nat} (stray : Stray text.toList i j) :
      Origin limits text
        (.textBeforeNot (String.ofList (strip (text.toList.extract i (j - 3)))))
        (i + leadingBlanks (text.toList.extract i j))
  /-- A token stands where it has no place in fold order. -/
  | blamed {ts : List Token} {t : Token} {fault : Fault} (tokens : tokenize text = .ok ts)
      (mem : t ∈ ts) (blamed : Blamed t.lexeme fault) : Origin limits text fault t.position
  /-- The sequence in fold order does not fold. -/
  | flawed {ts : List Token} {nodes : List Formula} {flaw : Flaw} (tokens : tokenize text = .ok ts)
      (arranged : Arranged none (lexemes ts) nodes)
      (folded : fold nodes limits.operations (some text) = .error (.malformed flaw (some text))) :
      Origin limits text (flaw.fault ts).1 (flaw.fault ts).2

/-- A fault that parsing reports is about the text, and comes from one of the three stages. -/
theorem parse_fault {limits : Limits} {text source : String} {fault : Fault} {position : Nat}
    (h : parse limits text = .error (.grammar fault source position)) :
    source = text ∧ Origin limits text fault position := by
  obtain rfl : source = text := by
    rcases parse_error h with ⟨_, _, heq⟩ | heq | heq
    all_goals cases heq
    rfl
  refine ⟨rfl, ?_⟩
  have hrun := parse_run limits source
  generalize parse limits source = answer at h hrun
  cases hrun with
  | untokenized hts =>
    cases h
    obtain ⟨i, j, hstray, heq⟩ := tokenize_eq_error hts
    cases heq
    exact .stray hstray
  | @unordered ts _ hts horder =>
    cases h
    have hblames := arrange_blames limits.depth source 0 none ts (fused_of_tokenize hts)
    obtain ⟨t, ht, rfl, hblamed⟩ := hblames _ _ _ horder
    exact .blamed hts ht hblamed
  | unfolded hts horder hfold =>
    rcases fold_eq_error hfold with rfl | ⟨flaw, rfl⟩
    · cases h
    · cases h
      exact .flawed hts (foldOrder_eq_ok_iff.mp horder).1 hfold
  | parsed => cases h

namespace Origin

variable {limits : Limits} {text : String} {fault : Fault} {position : Nat}

/-- A fault is reported at the start of the text, or at a character that is not blank. -/
theorem nonblankAt (h : Origin limits text fault position) :
    position = 0 ∨ NonblankAt text.toList position := by
  cases h with
  | stray hstray => exact .inr hstray.nonblankAt
  | blamed hts ht _ => exact .inr (nonblankAt_of_mem_tokenize hts ht)
  | @flawed ts nodes flaw hts _ _ =>
    rcases flaw.fault_position ts with hzero | ⟨t, ht, heq⟩
    · exact .inl hzero
    · rw [← heq]
      exact .inr (nonblankAt_of_mem_tokenize hts ht)

theorem not_unreachable (h : Origin limits text fault position) : ¬fault.Unreachable := by
  cases h with
  | stray => exact id
  | flawed => exact Flaw.not_unreachable_fault _ _
  | blamed hts ht hblamed =>
    intro hun
    obtain ⟨kind, hkind⟩ := hblamed.eq_unknown hun
    exact ne_unknown_of_mem_tokenize hts ht kind hkind

end Origin

/-- **What parsing reports.** Parsing a text gives a formula, or an error about this text that is
either about its grammar or about a limit. What is reported about the grammar is never a negation
without its parenthesis or a token of an unknown kind, and it is reported at the start of the text or
at a later character that is not blank. -/
theorem parse_reports (limits : Limits) (text : String) :
    (∃ f, parse limits text = .ok f)
    ∨ ∃ e, parse limits text = .error e ∧ e.diagnostic.expression? = some text
      ∧ (e.diagnostic.kind = "ExpressionLimitError"
        ∨ e.diagnostic.kind = "ExpressionSyntaxError"
          ∧ ∃ fault position, e = .grammar fault text position
            ∧ fault ≠ .openingAfterNot ∧ (∀ kind, fault ≠ .unknownToken kind)
            ∧ (position = 0 ∨ 0 < position ∧ position < text.length
              ∧ ∃ c, text.toList[position]? = some c ∧ isBlank c = false)) := by
  cases hp : parse limits text with
  | ok f => exact .inl ⟨f, rfl⟩
  | error e =>
    right
    refine ⟨e, rfl, ?_⟩
    rcases parse_error hp with ⟨fault, position, rfl⟩ | rfl | rfl
    · obtain ⟨-, horigin⟩ := parse_fault hp
      have hun := horigin.not_unreachable
      refine ⟨rfl, .inr ⟨rfl, fault, position, rfl, ?_, ?_, ?_⟩⟩
      · rintro rfl
        exact hun trivial
      · rintro kind rfl
        exact hun trivial
      · rcases horigin.nonblankAt with hzero | hchar
        · exact .inl hzero
        · have hlt := hchar.lt_length
          rw [String.length_toList] at hlt
          rcases Nat.eq_zero_or_pos position with hzero | hpos
          · exact .inl hzero
          · exact .inr ⟨hpos, hlt, hchar⟩
    · exact ⟨rfl, .inl rfl⟩
    · exact ⟨rfl, .inl rfl⟩

end FlagLogic
