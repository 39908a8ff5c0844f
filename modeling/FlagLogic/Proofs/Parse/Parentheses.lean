import FlagLogic.Proofs.Formula.Calls
import FlagLogic.Proofs.Parse.Faults
import FlagLogic.Proofs.Token.Matching

/-!
Faults about parentheses. Fold order counts levels from the start of each group, on the tokens that it
has cut out; what it reports is nevertheless the first parenthesis without a partner
(`arrange_blames_unpaired`). What is cut out is balanced, so such a fault comes from outside of all
groups. Main statement: a text with a parenthesis without a partner is not parsed, and the two faults
about parentheses are reported where the first closing one, or else the first opening one, has no
partner (`parse_blames_unpaired`).
-/

namespace FlagLogic

open FoldOrder

/-! ## The parenthesis to blame -/

/-- The fault is about a parenthesis without a partner. -/
def Fault.AboutParen : Fault → Prop
  | unclosed | unexpectedClosing => True
  | _ => False

/-- Where a group begins: at its opening parenthesis, or at the negation fused to it. -/
def groupOffset (before : List Token) (opening : Nat) : Nat :=
  match before.getLast? with
  | some ⟨.negation, position⟩ => position
  | _ => opening

/-- The first parenthesis without a partner, as the fault that it is and the offset to report. An
opening one is the first only if the closing ones behind it all have partners. -/
inductive Unpaired : List Token → Fault → Nat → Prop
  | closing {before rest : List Token} {position : Nat} (balanced : Balanced (lexemes before)) :
      Unpaired (before ++ ⟨.closing, position⟩ :: rest) .unexpectedClosing position
  | opening {before rest : List Token} {position k : Nat} (balanced : Balanced (lexemes before))
      (stays : levelAfter 0 (lexemes rest) = some k) :
      Unpaired (before ++ ⟨.opening, position⟩ :: rest) .unclosed (groupOffset before position)

namespace Unpaired

variable {ts us : List Token} {fault : Fault} {position : Nat}

theorem not_balanced (h : Unpaired ts fault position) : ¬Balanced (lexemes ts) := by
  unfold Balanced
  cases h with
  | closing hbefore =>
    rw [lexemes_append, levelAfter_append, hbefore]
    simp [levelAfter]
  | @opening before rest position k hbefore hrest =>
    have hone : levelAfter 1 (lexemes rest) = some (k + 1) := levelAfter_add 1 hrest
    rw [lexemes_append, levelAfter_append, hbefore]
    simp [levelAfter, Lexeme.enter, hone]

/-- Balanced tokens before the others leave the blame where it is, unless they end in a negation. -/
theorem append (h : Unpaired ts fault position) (hus : Balanced (lexemes us))
    (hlast : ∀ t, us.getLast? = some t → t.lexeme ≠ .negation) :
    Unpaired (us ++ ts) fault position := by
  cases h with
  | closing hbefore =>
    rw [← List.append_assoc]
    refine .closing ?_
    rw [lexemes_append]
    exact hus.append hbefore
  | @opening before rest position k hbefore hrest =>
    have hoffset : groupOffset (us ++ before) position = groupOffset before position := by
      unfold groupOffset
      cases before with
      | nil =>
        rw [List.append_nil]
        split
        · next q hq => exact absurd rfl (hlast _ hq)
        · rfl
      | cons t before => rw [List.getLast?_append_of_ne_nil _ (by simp)]
    rw [← List.append_assoc, ← hoffset]
    refine .opening ?_ hrest
    rw [lexemes_append]
    exact hus.append hbefore

/-- The stack has the parenthesis that is to blame as the first one without a partner. -/
theorem closings_eq (h : Unpaired ts .unexpectedClosing position) :
    (Unmatched.readAll {} ts).closings.head? = some position := by
  cases h with
  | closing hbefore => exact Unmatched.head?_closings hbefore rfl

theorem openings_eq (h : Unpaired ts .unclosed position) :
    (Unmatched.readAll {} ts).closings = []
      ∧ ∃ before opening after, ts = before ++ ⟨.opening, opening⟩ :: after
        ∧ (Unmatched.readAll {} ts).openings.head? = some opening
        ∧ position = groupOffset before opening := by
  cases h with
  | @opening before rest opening k hbefore hrest =>
    obtain ⟨hclosings, hopenings⟩ := Unmatched.head?_openings (t := ⟨.opening, opening⟩) hbefore rfl
      hrest
    exact ⟨hclosings, before, opening, rest, rfl, hopenings, rfl⟩

end Unpaired

/-! ## Blame in fold order -/

/-- If the answer is a fault about a parenthesis, then it is about the first one without a partner. -/
def BlamesUnpaired (ts : List Token) (answer : Except Error (List Formula)) : Prop :=
  Blames (fun fault position => fault.AboutParen → Unpaired ts fault position) answer

namespace BlamesUnpaired

variable {ts us : List Token} {answer : Except Error (List Formula)}

theorem append (h : BlamesUnpaired ts answer) (us : List Token) (hus : Balanced (lexemes us))
    (hlast : ∀ t, us.getLast? = some t → t.lexeme ≠ .negation) :
    BlamesUnpaired (us ++ ts) answer := by
  refine Blames.mono h ?_
  intro fault position hblamed hparen
  exact (hblamed hparen).append hus hlast

/-- Balanced tokens are never blamed. -/
theorem of_balanced (h : BlamesUnpaired us answer) (hus : Balanced (lexemes us)) :
    BlamesUnpaired ts answer := by
  refine Blames.mono h ?_
  intro fault position hblamed hparen
  exact absurd hus (hblamed hparen).not_balanced

/-- A lexeme that is no parenthesis, before the others. -/
theorem cons {t : Token} (h : BlamesUnpaired ts answer) (ht : t.lexeme.isParen = false)
    (hneg : t.lexeme ≠ .negation) : BlamesUnpaired (t :: ts) answer := by
  have hflat : t.lexeme ≠ .opening ∧ t.lexeme ≠ .closing := by simpa [Lexeme.isParen] using ht
  refine h.append [t] ((balanced_cons hflat.1 hflat.2).mpr Balanced.nil) ?_
  intro u hu
  cases hu
  exact hneg

/-- The answers for a group and for what follows it, put together. -/
theorem group (front : List Token) {body after : List Token} {closer : Token}
    {a b : Except Error (List Formula)} {f : List Formula → List Formula → List Formula}
    (hcloser : closer.lexeme = .closing) (hbody : Balanced (lexemes body))
    (hgroup : Balanced (lexemes (front ++ (body ++ [closer])))) (ha : BlamesUnpaired body a)
    (hb : BlamesUnpaired after b) :
    BlamesUnpaired (front ++ (body ++ closer :: after)) (do
      let inner ← a
      let outer ← b
      return f inner outer) := by
  have hlast : ∀ t, (front ++ (body ++ [closer])).getLast? = some t → t.lexeme ≠ .negation := by
    intro t ht
    rw [← List.append_assoc, List.getLast?_append] at ht
    cases ht
    simp [hcloser]
  have hafter := hb.append _ hgroup hlast
  simp only [List.append_assoc, List.singleton_append] at hafter
  exact Blames.bind (ha.of_balanced hbody) fun _ => Blames.bind hafter fun _ => .ok _

end BlamesUnpaired

theorem balanced_group {t u : Token} {body : List Token} (ht : t.lexeme = .opening)
    (hu : u.lexeme = .closing) (hbody : Balanced (lexemes body)) :
    Balanced (lexemes (t :: (body ++ [u]))) := by
  have := hbody.group
  simpa [ht, hu] using this

/-- A fault about a parenthesis is reported at the first one without a partner. -/
theorem arrange_blames_unpaired (maxDepth : Int) (source : String) (depth : Nat)
    (p : Option Connective) (ts : List Token) :
    BlamesUnpaired ts (arrange maxDepth source depth p ts) := by
  -- a token of this lexeme is this lexeme at its position
  have heta : ∀ {t : Token} {x : Lexeme}, t.lexeme = x → t = ⟨x, t.position⟩ := by
    rintro t x rfl
    rfl
  fun_induction arrange maxDepth source depth p ts with
  | case1 => exact .ok _
  | case2 | case10 | case11 | case15 => exact .grammar (fun hparen => hparen.elim) _
  | case3 depth t rest c ht ih => exact ih.cons (by simp [ht, Lexeme.isParen]) (by simp [ht])
  | case4 depth p t rest s ht ih | case5 depth p t rest b spelling ht ih =>
    exact Blames.bind (ih.cons (by simp [ht, Lexeme.isParen]) (by simp [ht])) fun _ => .ok _
  | case6 | case9 => exact .tooDeep _ _
  | case7 depth p t rest ht hd e he =>
    obtain ⟨k, hk⟩ := splitGroup_eq_none_iff.mp (splitGroup_of_group?_eq_error he)
    rw [group?_eq_error he]
    refine .grammar (fun _ => ?_) source
    rw [heta ht]
    exact @Unpaired.opening [] rest t.position k Balanced.nil hk
  | case8 depth p t rest ht hd body after hg ihb iha =>
    obtain ⟨hbody, -⟩ := group?_eq_ok hg
    obtain ⟨u, hu, rfl⟩ := eq_append_of_group? hg
    exact .group [t] hu hbody (balanced_group ht hu hbody) ihb iha
  | case12 depth p t ht hd u rest hu e he =>
    obtain ⟨k, hk⟩ := splitGroup_eq_none_iff.mp (splitGroup_of_group?_eq_error he)
    rw [group?_eq_error he]
    refine .grammar (fun _ => ?_) source
    rw [heta ht, heta (Decidable.not_not.mp hu)]
    exact @Unpaired.opening [_] rest u.position k rfl hk
  | case13 depth p t ht hd u rest hu body after hg ihb iha =>
    obtain ⟨hbody, -⟩ := group?_eq_ok hg
    obtain ⟨v, hv, rfl⟩ := eq_append_of_group? hg
    refine .group [t, u] hv hbody ?_ ihb iha
    have hgroup := balanced_group (Decidable.not_not.mp hu) hv hbody
    exact (balanced_cons (by simp [ht]) (by simp [ht])).mpr hgroup
  | case14 depth p t rest ht =>
    refine .grammar (fun _ => ?_) source
    rw [heta ht]
    exact @Unpaired.closing [] rest t.position Balanced.nil

/-- A call that answers with a fault about a parenthesis is outside of all groups. -/
theorem Call.depth_eq_zero {maxDepth : Int} {source source' : String} {ts us : List Token}
    {depth : Nat} {p : Option Connective} {fault : Fault} {position : Nat}
    (h : Call maxDepth source ts depth p us) (hparen : fault.AboutParen)
    (herr : arrange maxDepth source depth p us = .error (.grammar fault source' position)) :
    depth = 0 := by
  have hun := arrange_blames_unpaired maxDepth source depth p us fault source' position herr hparen
  rcases Nat.eq_zero_or_pos depth with hzero | hpos
  · exact hzero
  · exact absurd (h.balanced hpos) hun.not_balanced

/-! ## Texts -/

theorem Flaw.not_aboutParen_fault (ts : List Token) (flaw : Flaw) :
    ¬(flaw.fault ts).1.AboutParen := by
  rcases flaw.fault_fst ts with h | h | ⟨c, h⟩ | ⟨keyword, h⟩
  all_goals
    rw [h]
    exact id

/-- What parsing reports about a parenthesis comes from fold order. -/
theorem foldOrder_of_parse_aboutParen {limits : Limits} {text source : String} {ts : List Token}
    {fault : Fault} {position : Nat} (hts : tokenize text = .ok ts)
    (h : parse limits text = .error (.grammar fault source position)) (hparen : fault.AboutParen) :
    foldOrder ts limits.depth text = .error (.grammar fault source position) := by
  have hrun := parse_run limits text
  generalize parse limits text = answer at h hrun
  cases hrun with
  | untokenized hno =>
    rw [hts] at hno
    cases hno
  | unordered hts' horder =>
    cases h
    rw [hts] at hts'
    cases hts'
    exact horder
  | @unfolded ts' _ _ _ _ hfold =>
    rcases fold_eq_error hfold with rfl | ⟨flaw, rfl⟩
    · cases h
    · cases h
      exact absurd hparen (Flaw.not_aboutParen_fault ts' flaw)
  | parsed => cases h

theorem unpaired_of_parse {limits : Limits} {text source : String} {ts : List Token}
    {fault : Fault} {position : Nat} (hts : tokenize text = .ok ts)
    (h : parse limits text = .error (.grammar fault source position)) (hparen : fault.AboutParen) :
    Unpaired ts fault position :=
  arrange_blames_unpaired limits.depth text 0 none ts fault source position
    (foldOrder_of_parse_aboutParen hts h hparen) hparen

/-- The parentheses of a text that is parsed all have partners. -/
theorem unmatched_of_parse {limits : Limits} {text : String} {f : Formula}
    (h : parse limits text = .ok f) : unmatched text = {} := by
  obtain ⟨ts, nodes, hts, harr, -⟩ := parse_eq_ok_iff.mp h
  rw [unmatched_eq hts, Unmatched.readAll_of_balanced harr.balanced]

theorem leftmost_of_unexpectedClosing {limits : Limits} {text source : String} {ts : List Token}
    {position : Nat} (hts : tokenize text = .ok ts)
    (h : parse limits text = .error (.grammar .unexpectedClosing source position)) :
    Leftmost position (unmatched text).closings := by
  refine leftmost_of_head? (ascending_unmatched text).closings ?_
  rw [unmatched_eq hts]
  exact (unpaired_of_parse hts h trivial).closings_eq

theorem leftmost_of_unclosed {limits : Limits} {text source : String} {ts : List Token}
    {position : Nat} (hts : tokenize text = .ok ts)
    (h : parse limits text = .error (.grammar .unclosed source position)) :
    (unmatched text).closings = []
      ∧ ∃ before opening after, ts = before ++ ⟨.opening, opening⟩ :: after
        ∧ Leftmost opening (unmatched text).openings
        ∧ position = groupOffset before opening := by
  obtain ⟨hclosings, before, opening, after, htokens, hhead, hoffset⟩ :=
    (unpaired_of_parse hts h trivial).openings_eq
  rw [← unmatched_eq hts] at hclosings hhead
  exact ⟨hclosings, before, opening, after, htokens,
    leftmost_of_head? (ascending_unmatched text).openings hhead, hoffset⟩

/-- **Faults about parentheses.** If the parentheses of a text do not all have partners, then the text is
not parsed under any limits. A closing parenthesis is reported only if it is the leftmost one without
a partner. A group is reported as not closed only if every closing parenthesis has a partner, and at
the leftmost opening one without a partner or at the negation fused to it. If all have partners,
neither is reported. And both are raised outside of all groups only, never by a call inside of one. -/
theorem parse_blames_unpaired {text : String} {ts : List Token} (hts : tokenize text = .ok ts)
    (limits : Limits) :
    (unmatched text ≠ {} → ∀ f, parse limits text ≠ .ok f)
    ∧ (∀ source position,
        parse limits text = .error (.grammar .unexpectedClosing source position) →
          Leftmost position (unmatched text).closings)
    ∧ (∀ source position, parse limits text = .error (.grammar .unclosed source position) →
        (unmatched text).closings = []
        ∧ ∃ before opening after, ts = before ++ ⟨.opening, opening⟩ :: after
          ∧ Leftmost opening (unmatched text).openings
          ∧ position = groupOffset before opening)
    ∧ (unmatched text = {} → ∀ fault source position, fault.AboutParen →
        parse limits text ≠ .error (.grammar fault source position))
    ∧ (∀ fault source position, fault.AboutParen →
        parse limits text = .error (.grammar fault source position) →
          ∃ p us, Call limits.depth text ts 0 p us
            ∧ Raises limits.depth text 0 p us (.grammar fault source position))
    ∧ (∀ depth p us, Call limits.depth text ts depth p us → 0 < depth →
        ∀ fault source position, fault.AboutParen →
          arrange limits.depth text depth p us ≠ .error (.grammar fault source position)) := by
  refine ⟨?_, ?_, ?_, ?_, ?_, ?_⟩
  · intro hne f hparse
    exact hne (unmatched_of_parse hparse)
  · intro source position h
    exact leftmost_of_unexpectedClosing hts h
  · intro source position h
    exact leftmost_of_unclosed hts h
  · intro hnone fault source position hparen h
    cases fault with
    | unexpectedClosing =>
      obtain ⟨hmem, -⟩ := leftmost_of_unexpectedClosing hts h
      rw [hnone] at hmem
      cases hmem
    | unclosed =>
      obtain ⟨-, before, opening, after, -, ⟨hmem, -⟩, -⟩ := leftmost_of_unclosed hts h
      rw [hnone] at hmem
      cases hmem
    | _ => exact hparen
  · intro fault source position hparen h
    have horder := foldOrder_of_parse_aboutParen hts h hparen
    obtain ⟨depth, p, us, hcall, hraises⟩ := foldOrder_eq_error_iff.mp horder
    obtain rfl := hcall.depth_eq_zero hparen hraises.arrange_eq
    exact ⟨p, us, hcall, hraises⟩
  · intro depth p us hcall hdepth fault source position hparen h
    exact absurd (hcall.depth_eq_zero hparen h) (Nat.ne_of_gt hdepth)

/-- The group behind `NOT` is not closed; it is reported at the negation, three characters before the
parenthesis. -/
theorem parse_blames_unpaired_at_negation :
    parse {} "a AND NOT((b)" = .error (.grammar .unclosed "a AND NOT((b)" 6)
    ∧ (∀ f, parse {} "a AND NOT((b)" ≠ .ok f)
    ∧ unmatched "a AND NOT((b)" = { openings := [9] }
    ∧ ∃ before after, tokenize "a AND NOT((b)" = .ok (before ++ ⟨.opening, 9⟩ :: after)
        ∧ 6 = groupOffset before 9 := by
  have hts : tokenize "a AND NOT((b)" = .ok [⟨.name "a", 0⟩, ⟨.connective .and, 2⟩,
      ⟨.negation, 6⟩, ⟨.opening, 9⟩, ⟨.opening, 10⟩, ⟨.name "b", 11⟩, ⟨.closing, 12⟩] := rfl
  have hun : unmatched "a AND NOT((b)" = { openings := [9] } := rfl
  have hparse : parse {} "a AND NOT((b)" = .error (.grammar .unclosed "a AND NOT((b)" 6) := by
    rw [parse_eq, hts]
    simp only [bind, Except.bind, foldOrder]
    rw [arrange_leaf rfl, arrange.eq_def]
    simp only
    rw [arrange_fused rfl rfl]
    rfl
  obtain ⟨hrefused, -, hunclosed, -⟩ := parse_blames_unpaired hts {}
  obtain ⟨-, before, opening, after, htokens, ⟨hmem, -⟩, hoffset⟩ := hunclosed _ _ hparse
  rw [hun] at hmem
  obtain rfl := List.mem_singleton.mp hmem
  refine ⟨hparse, hrefused (by rw [hun]; simp), hun, before, after, ?_, hoffset⟩
  rw [hts, htokens]

end FlagLogic
