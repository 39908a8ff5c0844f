import FlagLogic.Proofs.Formula.CanonicalText
import FlagLogic.Proofs.Formula.Postorder
import FlagLogic.Proofs.Parse.Grammar
import FlagLogic.Proofs.Token.Reading
import Mathlib.Tactic.TFAE

/-!
Round trips through canonical text. Main statements: a formula with producible names comes back from
its canonical text exactly if both limits admit it, unless it clashes (`parse_text_of_not_clashes`);
if it clashes, its text is blamed on its grammar (`parse_text_of_clashes`); and what is parsed has
producible names (`producible_of_parse`), so canonical text of parsed formulas is parsed back, up to
the depth limit, and the producible names are those that settings have (`producible_tfae`).
-/

namespace FlagLogic

open FoldOrder Fold Formula

/-! ## Nesting of canonical text -/

/-- Lexemes without parentheses. -/
theorem balanced_nesting_of_flat {ls : List Lexeme}
    (h : ∀ x ∈ ls, x ≠ .opening ∧ x ≠ .closing) : Balanced ls ∧ nesting ls = 0 := by
  induction ls with
  | nil => exact ⟨.nil, rfl⟩
  | cons x ls ih =>
    obtain ⟨⟨ho, hc⟩, hls⟩ := List.forall_mem_cons.mp h
    obtain ⟨hbalanced, hnesting⟩ := ih hls
    exact ⟨(balanced_cons ho hc).mpr hbalanced, by rw [nesting_cons ho, hnesting]⟩

/-- A group of balanced lexemes, on its own. -/
theorem balanced_nesting_group {ls : List Lexeme} {n : Nat} (h : Balanced ls ∧ nesting ls = n) :
    Balanced (.opening :: ls ++ [.closing]) ∧ nesting (.opening :: ls ++ [.closing]) = n + 1 := by
  refine ⟨h.1.group, ?_⟩
  rw [nesting_group [] h.1, h.2]
  exact Nat.max_eq_left (Nat.zero_le _)

theorem balanced_nesting_of_leaf {f : Formula} {place : Place} (hleaf : f.arity = 0)
    (hflat : ∀ x ∈ f.lexemes place, x ≠ .opening ∧ x ≠ .closing) :
    Balanced (f.lexemes place)
      ∧ nesting (f.lexemes place) = f.nesting + if place.nested ∧ f.isBinary then 1 else 0 := by
  have hzero : f.nesting = 0 ∧ f.isBinary = false := by
    cases f <;> first | exact ⟨rfl, rfl⟩ | cases hleaf
  simpa [hzero.1, hzero.2] using balanced_nesting_of_flat hflat

/-- Canonical text is balanced, and a connective that is an operand has a group of its own. -/
theorem balanced_nesting_lexemes (f : Formula) (place : Place) :
    Balanced (f.lexemes place)
      ∧ nesting (f.lexemes place) = f.nesting + if place.nested ∧ f.isBinary then 1 else 0 := by
  induction f generalizing place with
  | hole | foreign | literal => exact balanced_nesting_of_leaf rfl (by simp [Formula.lexemes])
  | setting name =>
    refine balanced_nesting_of_leaf rfl ?_
    unfold Formula.lexemes
    split
    · exact List.forall_mem_cons.mpr ⟨by simp, flat_pieceLexemes _⟩
    · simp
  | not x ih =>
    have hgroup := balanced_nesting_group (ih .whole)
    rw [Formula.lexemes, List.cons_append]
    refine ⟨(balanced_cons (by simp) (by simp)).mpr hgroup.1, ?_⟩
    rw [nesting_cons (by simp), hgroup.2]
    simp [Formula.nesting, isBinary]
  | binary c l r ihl ihr =>
    obtain ⟨hbl, hnl⟩ := ihl .left
    obtain ⟨hbr, hnr⟩ := ihr .right
    have hinner : Balanced (l.lexemes .left ++ .connective c :: r.lexemes .right)
        ∧ nesting (l.lexemes .left ++ .connective c :: r.lexemes .right)
          = (binary c l r).nesting := by
      refine ⟨hbl.append ((balanced_cons (by simp) (by simp)).mpr hbr), ?_⟩
      rw [nesting_append _ hbl, nesting_cons (by simp), hnl, hnr]
      simp [Formula.nesting]
    cases place with
    | whole => simpa [Formula.lexemes] using hinner
    | left | right => simpa [Formula.lexemes, isBinary] using balanced_nesting_group hinner

theorem nesting_lexemes_whole (f : Formula) : nesting (f.lexemes .whole) = f.nesting := by
  simpa using (balanced_nesting_lexemes f .whole).2

/-! ## Formulas that do not clash -/

/-- The lexemes of a formula that does not clash are derived: as a term where it is an operand, and
as an expression where it is the whole. -/
theorem derives_lexemes {f : Formula} (hf : f.Producible) (hclash : ¬f.Clashes) :
    Derives .expression (f.lexemes .whole) f ∧ Derives .term (f.lexemes .left) f
      ∧ (¬f.leadsWithConnective → Derives .term (f.lexemes .right) f) := by
  induction f with
  | hole | foreign => exact hf.elim
  | literal b => exact ⟨.term (.literal b _), .literal b _, fun _ => .literal b _⟩
  | setting name =>
    refine ⟨.term (.name name), .name name, fun hlead => ?_⟩
    unfold Formula.lexemes
    split
    · next hc => exact absurd (by simp [leadsWithConnective, hc]) hlead
    · exact .name name
  | not x ih =>
    have hterm := Derives.negation (ih hf hclash).1
    exact ⟨.term hterm, hterm, fun _ => hterm⟩
  | binary c l r ihl ihr =>
    simp only [Clashes, not_or] at hclash
    obtain ⟨-, hleft, -⟩ := ihl hf.1 hclash.1
    obtain ⟨-, -, hright⟩ := ihr hf.2 hclash.2.1
    have hexpr : Derives .expression (l.lexemes .left ++ .connective c :: r.lexemes .right)
        (.binary c l r) :=
      .binary (.term hleft) (hright hclash.2.2)
    exact ⟨hexpr, .group hexpr, fun _ => .group hexpr⟩

/-- **Round trip.** A formula that does not clash comes back from its canonical text exactly if both
limits admit it. -/
theorem parse_text_of_not_clashes {limits : Limits} {f : Formula} (hf : f.Producible)
    (hclash : ¬f.Clashes) {g : Formula} :
    parse limits f.text = .ok g ↔ g = f ∧ limits.Admits f.size f.nesting := by
  obtain ⟨ts, hts, hls⟩ := tokenize_text hf
  have hfolds := (derives_lexemes hf hclash).1.folds
  have hnesting := nesting_lexemes_whole f
  rw [← hls] at hfolds hnesting
  rw [← hnesting]
  exact parse_eq_ok_iff_of_folds hts hfolds

/-- Beyond the depth limit, the text of a formula that does not clash is refused for its depth. -/
theorem parse_text_tooDeep {limits : Limits} {f : Formula} (hf : f.Producible)
    (hclash : ¬f.Clashes) (hdeep : ¬Within limits.depth 0 f.nesting) :
    parse limits f.text = .error (.tooDeep limits.depth f.text) := by
  obtain ⟨ts, hts, hls⟩ := tokenize_text hf
  obtain ⟨nodes, harr, -⟩ := (derives_lexemes hf hclash).1.folds
  have hnesting := nesting_lexemes_whole f
  rw [← hls] at harr hnesting
  exact parse_tooDeep hts harr (hnesting ▸ hdeep)

/-! ## Formulas that clash -/

/-- The lexemes are not both connectives. -/
def Undoubled (a b : Lexeme) : Prop := ∀ c d, ¬(a = .connective c ∧ b = .connective d)

/-- Two connectives stand side by side. -/
def DoubledConnective (ls : List Lexeme) : Prop :=
  ∃ before c d after, ls = before ++ .connective c :: .connective d :: after

theorem DoubledConnective.context {ls : List Lexeme} (h : DoubledConnective ls)
    (xs ys : List Lexeme) : DoubledConnective (xs ++ ls ++ ys) := by
  obtain ⟨before, c, d, after, rfl⟩ := h
  exact ⟨xs ++ before, c, d, after ++ ys, by simp⟩

theorem isChain_undoubled_group {body ls : List Lexeme} (hbody : body.IsChain Undoubled)
    (hls : ls.IsChain Undoubled) :
    (.opening :: body ++ .closing :: ls : List Lexeme).IsChain Undoubled := by
  have hopening : (.opening :: body : List Lexeme).IsChain Undoubled :=
    List.isChain_cons.mpr ⟨fun _ _ _ _ h => (by cases h.1), hbody⟩
  have hclosing : (.closing :: ls : List Lexeme).IsChain Undoubled :=
    List.isChain_cons.mpr ⟨fun _ _ _ _ h => (by cases h.1), hls⟩
  rw [List.isChain_append]
  refine ⟨hopening, hclosing, fun a _ b hb c d h => ?_⟩
  cases hb
  cases h.2

/-- A connective cannot wait while another one is read. -/
theorem Arranged.undoubled {p : Option Connective} {ls : List Lexeme} {nodes : List Formula}
    (h : Arranged p ls nodes) :
    ls.IsChain Undoubled ∧ (p ≠ none → ∀ x ∈ ls.head?, ∀ c, x ≠ .connective c) := by
  induction h with
  | nil => exact ⟨List.isChain_nil, fun _ => nofun⟩
  | connective _ ih =>
    refine ⟨List.isChain_cons.mpr ⟨fun y hy c d h => ?_, ih.1⟩, fun h => absurd rfl h⟩
    exact ih.2 (by simp) y hy d h.2
  | leaf hx _ ih =>
    refine ⟨List.isChain_cons.mpr ⟨fun y _ c d h => ?_, ih.1⟩, fun _ y hy c h => ?_⟩
    · rw [h.1] at hx
      cases hx
    · cases hy
      rw [h] at hx
      cases hx
  | group _ _ ihb ihl =>
    exact ⟨isChain_undoubled_group ihb.1 ihl.1, fun _ y hy c h => by cases hy; cases h⟩
  | negation _ _ ihb ihl =>
    have hgroup := isChain_undoubled_group ihb.1 ihl.1
    exact ⟨List.isChain_cons.mpr ⟨fun _ _ _ _ h => (by cases h.1), hgroup⟩,
      fun _ y hy c h => by cases hy; cases h⟩

theorem not_arranged_of_doubled {ls : List Lexeme} (h : DoubledConnective ls)
    (nodes : List Formula) : ¬Arranged none ls nodes := fun harr => by
  obtain ⟨before, c, d, after, hls⟩ := h
  exact List.isChain_iff_forall_rel_of_append_cons_cons.mp harr.undoubled.1 hls c d ⟨rfl, rfl⟩

/-- The canonical text of a formula that clashes has two connectives side by side. -/
theorem doubled_of_clashes {f : Formula} (h : f.Clashes) (place : Place) :
    DoubledConnective (f.lexemes place) := by
  induction f generalizing place with
  | hole | foreign | literal | setting => exact h.elim
  | not x ih =>
    simpa [Formula.lexemes] using (ih h .whole).context [.negation, .opening] [.closing]
  | binary c l r ihl ihr =>
    have hinner : DoubledConnective (l.lexemes .left ++ .connective c :: r.lexemes .right) := by
      rcases h with h | h | h
      · simpa using (ihl h .left).context [] (.connective c :: r.lexemes .right)
      · have hright := (ihr h .right).context (l.lexemes .left ++ [.connective c]) []
        rwa [List.append_nil, List.append_assoc] at hright
      · -- the first word of the name is read as a connective, right behind this one
        cases r with
        | setting name =>
          obtain ⟨d, hd⟩ := Option.isSome_iff_exists.mp h
          exact ⟨l.lexemes .left, c, d, pieceLexemes (afterFirstWord name), by
            simp [Formula.lexemes, hd]⟩
        | _ => cases h
    cases place with
    | whole => simpa [Formula.lexemes] using hinner
    | left | right => simpa [Formula.lexemes] using hinner.context [.opening] [.closing]

/-- A formula that clashes does not come back from its canonical text. Within the depth limit, the
text is blamed on its grammar. -/
theorem parse_text_of_clashes {limits : Limits} {f : Formula} (hf : f.Producible)
    (hclash : f.Clashes) :
    (∀ g, parse limits f.text ≠ .ok g)
    ∧ (Within limits.depth 0 f.nesting →
      ∃ fault position, parse limits f.text = .error (.grammar fault f.text position)) := by
  obtain ⟨ts, hts, hls⟩ := tokenize_text hf
  have hno := not_arranged_of_doubled (doubled_of_clashes hclash .whole)
  have hnesting := nesting_lexemes_whole f
  rw [← hls] at hno hnesting
  constructor
  · intro g hg
    obtain ⟨nodes, harr, -⟩ := (parse_eq_ok_iff_of_tokenize hts).mp hg
    exact hno nodes harr
  · exact fun hwithin => parse_of_not_arranged hts hno (hnesting ▸ hwithin)

/-- Canonical text is never parsed to another formula. -/
theorem eq_of_parse_text {limits : Limits} {f g : Formula} (hf : f.Producible)
    (h : parse limits f.text = .ok g) : g = f := by
  by_cases hclash : f.Clashes
  · exact absurd h ((parse_text_of_clashes hf hclash).1 g)
  · exact ((parse_text_of_not_clashes hf hclash).mp h).1

/-! ## Parsed formulas -/

theorem arity_waiting {p : Option Connective} {n : Formula} (h : n ∈ waiting p) : n.arity = 2 := by
  cases p with
  | none => cases h
  | some c => rw [List.mem_singleton.mp h]; rfl

/-- The leaves in fold order are producible if the names are. -/
theorem Arranged.producible {p : Option Connective} {ls : List Lexeme} {nodes : List Formula}
    (h : Arranged p ls nodes) (hnames : ∀ s, .name s ∈ ls → FlagLogic.Producible s) :
    ∀ n ∈ nodes, n.arity = 0 → n.Producible := by
  have hwaiting : ∀ {p : Option Connective}, ∀ n ∈ waiting p, n.arity = 0 → n.Producible :=
    fun n hn h0 => by rw [arity_waiting hn] at h0; cases h0
  induction h with
  | nil p => exact hwaiting
  | connective _ ih => exact ih fun s hs => hnames s (by simp [hs])
  | @leaf p x f ls nodes hx _ ih =>
    have hleaf : f.Producible := by
      cases x with
      | name s => cases hx; exact hnames s (by simp)
      | literal => cases hx; trivial
      | _ => cases hx
    simp only [List.cons_append, List.mem_cons, List.mem_append]
    rintro n (rfl | hn | hn) h0
    · exact hleaf
    · exact hwaiting n hn h0
    · exact ih (fun s hs => hnames s (by simp [hs])) n hn h0
  | group _ _ ihb ihl =>
    simp only [List.mem_append]
    rintro n ((hn | hn) | hn) h0
    · exact ihb (fun s hs => hnames s (by simp [hs])) n hn h0
    · exact hwaiting n hn h0
    · exact ihl (fun s hs => hnames s (by simp [hs])) n hn h0
  | negation _ _ ihb ihl =>
    simp only [List.mem_cons, List.mem_append]
    rintro n ((hn | rfl | hn) | hn) h0
    · exact ihb (fun s hs => hnames s (by simp [hs])) n hn h0
    · cases h0
    · exact hwaiting n hn h0
    · exact ihl (fun s hs => hnames s (by simp [hs])) n hn h0

/-- A formula is producible if the leaves among its nodes are. -/
theorem producible_of_postorder {f : Formula}
    (h : ∀ n ∈ f.postorder, n.arity = 0 → n.Producible) : f.Producible := by
  induction f with
  | not x ih => exact ih fun n hn => h n (List.mem_append_left _ hn)
  | binary c l r ihl ihr =>
    constructor
    · exact ihl fun n hn => h n (List.mem_append_left _ (List.mem_append_left _ hn))
    · exact ihr fun n hn => h n (List.mem_append_left _ (List.mem_append_right _ hn))
  | _ => exact h _ (List.mem_singleton_self _) rfl

/-- What is parsed is whole, has producible names, and fewer nodes than the limit. -/
theorem producible_of_parse {limits : Limits} {text : String} {f : Formula}
    (h : parse limits text = .ok f) : f.Producible ∧ (f.size : Int) < limits.operations := by
  obtain ⟨ts, nodes, hts, harr, hsteps, hlim, -⟩ := parse_eq_ok_iff.mp h
  constructor
  · have hleaves := harr.producible fun s hs => producible_of_tokenize hts hs
    refine producible_of_postorder fun n hn h0 => ?_
    rw [steps?_eq_singleton_iff.mp hsteps] at hn
    obtain ⟨node, hnode, rfl⟩ := List.mem_map.mp hn
    rw [arity_bare] at h0
    rw [bare_of_arity h0]
    exact hleaves node hnode h0
  · have hsize := sizes_steps? nodes hsteps
    have hlength := harr.length
    simp [sizes, waiting] at hsize hlength
    omega

/-! ## Round trips -/

/-- **Round trip of formulas.** Within both limits, a formula with producible names comes back from
its canonical text unless it clashes; then the text is blamed on its grammar. -/
theorem parse_text {limits : Limits} {f : Formula} (hf : f.Producible)
    (hnodes : (f.size : Int) < limits.operations) (hdepth : (f.nesting : Int) ≤ limits.depth) :
    (¬f.Clashes → parse limits f.text = .ok f)
    ∧ (f.Clashes → ∃ fault position, parse limits f.text = .error (.grammar fault f.text position))
    ∧ ∀ g, parse limits f.text = .ok g → g = f := by
  refine ⟨fun hclash => ?_, fun hclash => ?_, fun g => eq_of_parse_text hf⟩
  · exact (parse_text_of_not_clashes hf hclash).mpr ⟨rfl, hnodes, .inr hdepth⟩
  · refine (parse_text_of_clashes hf hclash).2 (.inr ?_)
    rwa [Nat.zero_add]

/-- A formula that comes back under the tightest limits, and one that clashes. -/
theorem parse_text_at_limits :
    parse ⟨7, 2⟩ "a b AND (NOT(c) OR TRUE)" = .ok (.binary .and (.setting "a b")
        (.binary .or (.not (.setting "c")) (.literal true)))
    ∧ ∃ fault position,
      parse ⟨4, 0⟩ "a AND OR b" = .error (.grammar fault "a AND OR b" position) := by
  have htext : (binary .and (.setting "a b")
      (.binary .or (.not (.setting "c")) (.literal true))).text = "a b AND (NOT(c) OR TRUE)" := by
    rw [← String.toList_inj, toList_text]
    rfl
  have hclashing : (binary .and (.setting "a") (.setting "OR b")).text = "a AND OR b" := by
    rw [← String.toList_inj, toList_text]
    rfl
  rw [← htext, ← hclashing]
  exact ⟨(parse_text (by decide) (by decide) (by decide)).1 (by decide),
    (parse_text (by decide) (by decide) (by decide)).2.1 (by decide)⟩

/-- **Round trip of parsed formulas.** What is parsed comes back from its canonical text under the
same limits if its groups are within the depth limit there, too, and is refused for its depth if
they are not, unless it clashes; and it is never parsed to another formula. -/
theorem parse_text_of_parse {limits : Limits} {text : String} {f : Formula}
    (h : parse limits text = .ok f) :
    (¬f.Clashes →
      (f.nesting = 0 ∨ (f.nesting : Int) ≤ limits.depth → parse limits f.text = .ok f)
      ∧ (¬(f.nesting = 0 ∨ (f.nesting : Int) ≤ limits.depth) →
        parse limits f.text = .error (.tooDeep limits.depth f.text)))
    ∧ ∀ g, parse limits f.text = .ok g → g = f := by
  obtain ⟨hf, hnodes⟩ := producible_of_parse h
  refine ⟨fun hclash => ⟨fun hdepth => ?_, fun hdeep => ?_⟩, fun g => eq_of_parse_text hf⟩
  · exact (parse_text_of_not_clashes hf hclash).mpr ⟨rfl, hnodes, hdepth⟩
  · refine parse_text_tooDeep hf hclash ?_
    rwa [Within, Nat.zero_add]

/-- A parsed formula whose canonical text has one more group, which the limit just admits. -/
theorem parse_text_of_parse_at_limit :
    parse ⟨6, 1⟩ "a AND b OR c"
        = .ok (.binary .or (.binary .and (.setting "a") (.setting "b")) (.setting "c"))
    ∧ parse ⟨6, 1⟩ "(a AND b) OR c"
        = .ok (.binary .or (.binary .and (.setting "a") (.setting "b")) (.setting "c")) := by
  have hts : tokenize "a AND b OR c" = .ok [⟨.name "a", 0⟩, ⟨.connective .and, 2⟩,
      ⟨.name "b", 6⟩, ⟨.connective .or, 8⟩, ⟨.name "c", 11⟩] := rfl
  have hand : Derives .expression [.name "a", .connective .and, .name "b"]
      (.binary .and (.setting "a") (.setting "b")) :=
    .binary (.term (.name "a")) (.name "b")
  have hparse : parse ⟨6, 1⟩ "a AND b OR c"
      = .ok (.binary .or (.binary .and (.setting "a") (.setting "b")) (.setting "c")) :=
    parse_of_derives hts (.binary (c := .or) hand (.name "c")) (by decide)
  have htext : (binary .or (.binary .and (.setting "a") (.setting "b")) (.setting "c")).text
      = "(a AND b) OR c" := by
    rw [← String.toList_inj, toList_text]
    rfl
  refine ⟨hparse, ?_⟩
  rw [← htext]
  exact ((parse_text_of_parse hparse).1 (by decide)).1 (by decide)

/-- Canonical text puts a group around a connective that had none, and that group may be beyond the
limit; and it takes away the parentheses that kept a name from being read as a connective. -/
theorem parse_text_ne_of_parse :
    (parse ⟨1000, 0⟩ "a AND b OR c"
        = .ok (.binary .or (.binary .and (.setting "a") (.setting "b")) (.setting "c"))
      ∧ (binary .or (.binary .and (.setting "a") (.setting "b")) (.setting "c")).text
        = "(a AND b) OR c"
      ∧ parse ⟨1000, 0⟩ "(a AND b) OR c" = .error (.tooDeep 0 "(a AND b) OR c"))
    ∧ parse ⟨1000, 64⟩ "a AND (OR b)" = .ok (.binary .and (.setting "a") (.setting "OR b"))
      ∧ (binary .and (.setting "a") (.setting "OR b")).text = "a AND OR b"
      ∧ ∀ g, parse ⟨1000, 64⟩ "a AND OR b" ≠ .ok g := by
  have hflat : tokenize "a AND b OR c" = .ok [⟨.name "a", 0⟩, ⟨.connective .and, 2⟩,
      ⟨.name "b", 6⟩, ⟨.connective .or, 8⟩, ⟨.name "c", 11⟩] := rfl
  have hgroup : tokenize "a AND (OR b)" = .ok [⟨.name "a", 0⟩, ⟨.connective .and, 2⟩,
      ⟨.opening, 6⟩, ⟨.name "OR b", 7⟩, ⟨.closing, 11⟩] := rfl
  have hdeep : (binary .or (.binary .and (.setting "a") (.setting "b")) (.setting "c")).text
      = "(a AND b) OR c" := by
    rw [← String.toList_inj, toList_text]
    rfl
  have hclash : (binary .and (.setting "a") (.setting "OR b")).text = "a AND OR b" := by
    rw [← String.toList_inj, toList_text]
    rfl
  have hand : Derives .expression [.name "a", .connective .and, .name "b"]
      (.binary .and (.setting "a") (.setting "b")) :=
    .binary (.term (.name "a")) (.name "b")
  refine ⟨⟨?_, hdeep, ?_⟩, ?_, hclash, ?_⟩
  · exact parse_of_derives hflat (.binary (c := .or) hand (.name "c")) (by decide)
  · rw [← hdeep]
    exact parse_text_tooDeep (by decide) (by decide) (by decide)
  · exact parse_of_derives hgroup (.binary (c := .and) (.term (.name "a"))
      (.group (.term (.name "OR b")))) (by decide)
  · rw [← hclash]
    exact (parse_text_of_clashes (by decide) (by decide)).1

/-! ## Names of settings -/

/-- A producible name is parsed as its setting, whatever the depth limit. -/
theorem parse_of_producible {s : String} (hs : Producible s) {limits : Limits}
    (hlim : 2 ≤ limits.operations) : parse limits s = .ok (.setting s) := by
  have htext : (setting s).text = s := by
    rw [← String.toList_inj, toList_text]
    rfl
  have hadmits : limits.Admits (setting s).size (setting s).nesting := ⟨hlim, .inl rfl⟩
  have := (parse_text_of_not_clashes (f := .setting s) hs id).mpr ⟨rfl, hadmits⟩
  rwa [htext] at this

/-- **The settings that there are.** A name stands in some parsed formula exactly if it is
producible, and exactly if it is parsed as its own setting under all limits that admit one node; so
the leaves of a parsed formula are literals and settings with such names. -/
theorem producible_tfae (s : String) :
    List.TFAE [
      ∃ limits text f, parse limits text = .ok f ∧ s ∈ f.leaves,
      Producible s,
      ∀ limits : Limits, 2 ≤ limits.operations → parse limits s = .ok (.setting s)]
    ∧ ∀ limits text f, parse limits text = .ok f → f.Producible := by
  have hparse : ∀ limits text f, parse limits text = .ok f → f.Producible :=
    fun _ _ _ h => (producible_of_parse h).1
  refine ⟨?_, hparse⟩
  tfae_have 1 → 2 := fun ⟨limits, text, f, h, hs⟩ => (hparse limits text f h).of_mem_leaves hs
  tfae_have 2 → 3 := fun hs _ => parse_of_producible hs
  tfae_have 3 → 1 := fun h =>
    ⟨⟨2, 0⟩, s, .setting s, h ⟨2, 0⟩ (Int.le_refl 2), List.mem_singleton_self s⟩
  tfae_finish

end FlagLogic
