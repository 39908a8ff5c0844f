import FlagLogic.Proofs.Formula.CanonicalText
import FlagLogic.Proofs.Value.Maps

/-!
The text and the record of a formula by recursion on its structure. The walks keep their work on lists
of their own; `rendered` and `record` say what they come to, one rule for each kind of formula. Main
statement: the walks are these recursions, and a formula is known from its record, even if the order of
the fields is forgotten (`walks_follow_structure`).
-/

namespace FlagLogic

/-! ## The same data -/

namespace Value

/-- The values hold the same data: the order of the entries of a map does not matter, and a truth value
is as good as the number that it is equal to. -/
inductive Same : Value → Value → Prop
  | atom {v w : Value} (equal : sameKey v w) : Same v w
  | list {xs ys : List Value} (length : xs.length = ys.length)
      (items : ∀ (i : Nat) x y, xs[i]? = some x → ys[i]? = some y → Same x y) :
      Same (list xs) (list ys)
  | map {es fs : List (Value × Value)} (keys : ∀ k, (find? es k).isSome = (find? fs k).isSome)
      (values : ∀ k v w, find? es k = some v → find? fs k = some w → Same v w) :
      Same (map es) (map fs)

theorem Same.refl (v : Value) : Same v v := .atom (sameKey_self v)

theorem get?_record (fields : List (String × Value)) (key : String) :
    (record fields).get? key = fields.lookup key := by
  show find? (fields.map fun e => (text e.1, e.2)) (text key) = fields.lookup key
  induction fields with
  | nil => rfl
  | cons e fields ih =>
    obtain ⟨k, v⟩ := e
    have hkey : sameKey (text key) (text k) = (key == k) := by
      rw [Bool.eq_iff_iff, sameKey_text_iff, beq_iff_eq, text.injEq, eq_comm]
    rw [List.map_cons, find?_cons, ih, hkey, List.lookup_cons]
    cases key == k <;> rfl

/-- A number or a truth value, which may be the same key as one of another kind. -/
def isNumber : Value → Bool
  | bool _ | int _ | float _ => true
  | _ => false

theorem eq_of_sameKey {v w : Value} (h : sameKey v w = true) (hv : v.isNumber = false) : w = v := by
  unfold sameKey at h
  split at h
  · next hi _ =>
    cases v with
    | bool | int | float => cases hv
    | _ => cases hi
  · exact (eq_of_beq h).symm
  · cases h

namespace Same

theorem eq_null {v : Value} (h : Same null v) : v = null := by
  cases h with
  | atom heq => exact eq_of_sameKey heq rfl

theorem eq_text {v : Value} {s : String} (h : Same (text s) v) : v = text s := by
  cases h with
  | atom heq => exact eq_of_sameKey heq rfl

theorem eq_bool {b c : Bool} (h : Same (bool b) (bool c)) : b = c := by
  cases h with
  | atom heq => cases b <;> cases c <;> first | rfl | cases heq

/-- What one map holds under a text key, the other holds as well. -/
theorem get? {v w a : Value} {key : String} (h : Same v w) (ha : v.get? key = some a) :
    ∃ b, w.get? key = some b ∧ Same a b := by
  cases h with
  | atom heq =>
    cases v with
    | map es =>
      rw [eq_of_sameKey heq rfl]
      exact ⟨a, ha, .refl a⟩
    | _ => cases ha
  | list => cases ha
  | @map es fs keys values =>
    have hsome : (find? fs (text key)).isSome := by
      rw [← keys, show find? es (text key) = some a from ha]
      rfl
    obtain ⟨b, hb⟩ := Option.isSome_iff_exists.mp hsome
    exact ⟨b, hb, values _ a b ha hb⟩

/-- Fields of one name in two records hold the same data if the records do. -/
theorem field {fields more : List (String × Value)} {a b : Value} (key : String)
    (h : Same (record fields) (record more)) (ha : fields.lookup key = some a)
    (hb : more.lookup key = some b) : Same a b := by
  rw [← get?_record] at ha hb
  obtain ⟨b', hb', hsame⟩ := h.get? ha
  rw [hb] at hb'
  cases hb'
  exact hsame

end Same

end Value

namespace Formula

/-! ## Text -/

/-- The text of a formula as an operand of a connective: another connective stands between parentheses,
and nothing else does. -/
def enclosed (f : Formula) (text : String) : String :=
  if f.isBinary then "(" ++ text ++ ")" else text

/-- The text of a formula. -/
def rendered : Formula → String
  | hole => "?"
  | foreign _ shown => shown
  | literal b => literalKeyword b
  | setting name => name
  | not x => "NOT(" ++ x.rendered ++ ")"
  | binary c l r => l.enclosed l.rendered ++ " " ++ c.keyword ++ " " ++ r.enclosed r.rendered

theorem toList_rendered (f : Formula) : f.rendered.toList = f.chars false
    ∧ (f.enclosed f.rendered).toList = f.chars true := by
  induction f with
  | binary c l r ihl ihr =>
    have htext : (binary c l r).rendered.toList = (binary c l r).chars false := by
      simp only [rendered, String.toList_append, ihl.2, ihr.2]
      simp [chars]
    have henclosed : (binary c l r).enclosed (binary c l r).rendered
        = "(" ++ (binary c l r).rendered ++ ")" := rfl
    refine ⟨htext, ?_⟩
    rw [henclosed, String.toList_append, String.toList_append, htext]
    simp [chars]
  | not x ih => simp [rendered, enclosed, isBinary, chars, negationKeyword, ih.1]
  | _ => simp [rendered, enclosed, isBinary, chars]

/-- The walk writes the text of the recursion. -/
theorem text_eq_rendered (f : Formula) : f.text = f.rendered := by
  rw [← String.toList_inj, toList_text, f.toList_rendered.1]

example : rendered (.binary .and .hole (.not (.binary .or (.setting "a") .hole)))
    = "? AND NOT(a OR ?)" := rfl

/-! ## Records -/

/-- The record of a formula. -/
def record : Formula → Value
  | hole => .null
  | foreign kind shown => leafRecord (foreign kind shown)
  | literal b => .record [("type", .text "literal"), ("value", .bool b)]
  | setting name => .record [("type", .text "setting"), ("name", .text name)]
  | not x => .record [("type", .text "not"), ("operand", x.record)]
  | binary c l r =>
    .record [("type", .text (connectiveName c)), ("left", l.record), ("right", r.record)]

/-- Visiting a formula puts its record on the results, whatever is there and whatever is left to do. -/
theorem collect_visit (results : List Value) (f : Formula) (rest : List Task) :
    collect results (.visit f :: rest) = collect (f.record :: results) rest := by
  induction f generalizing results rest with
  | not x ih =>
    rw [collect, ih, collect]
    rfl
  | binary c l r ihl ihr =>
    rw [collect, ihl, ihr, collect]
    rfl
  | _ =>
    rw [collect]
    rfl

/-- The walk collects the record of the recursion. -/
theorem toValue_eq_record (f : Formula) : f.toValue = f.record := by
  rw [toValue, collect_visit, collect]
  rfl

/-! ## A formula is known from its record -/

/-- The name of the formula's kind in its record; a missing operand has none. -/
def recordType? : Formula → Option String
  | hole => none
  | foreign .. => some "foreign"
  | literal _ => some "literal"
  | setting _ => some "setting"
  | not _ => some "not"
  | binary c _ _ => some (connectiveName c)

theorem get?_type_record (f : Formula) :
    f.record.get? "type" = f.recordType?.map Value.text := by
  cases f <;> rfl

theorem recordType?_eq_of_same {f g : Formula} (h : Value.Same f.record g.record) :
    f.recordType? = g.recordType? := by
  cases hf : f.recordType? with
  | none =>
    have hnull : f.record = .null := by
      cases f <;> first | rfl | cases hf
    rw [hnull] at h
    cases g <;> first | rfl | cases h.eq_null
  | some t =>
    have htype : f.record.get? "type" = some (.text t) := by
      rw [get?_type_record, hf]
      rfl
    obtain ⟨v, hv, hsame⟩ := h.get? htype
    rw [get?_type_record, hsame.eq_text, Option.map_eq_some_iff] at hv
    obtain ⟨u, hu, heq⟩ := hv
    cases heq
    exact hu.symm

/-- The record names the kind of the formula, and its fields are those of this kind. -/
theorem eq_of_same_record {f g : Formula} (h : Value.Same f.record g.record) : f = g := by
  induction f generalizing g with
  | literal b =>
    have htype := recordType?_eq_of_same h
    cases g with
    | literal c => rw [(h.field "value" rfl rfl).eq_bool]
    | _ => grind [recordType?, connectiveName, cases Connective]
  | setting name =>
    have htype := recordType?_eq_of_same h
    cases g with
    | setting name' =>
      cases (h.field "name" rfl rfl).eq_text
      rfl
    | _ => grind [recordType?, connectiveName, cases Connective]
  | not x ih =>
    have htype := recordType?_eq_of_same h
    cases g with
    | not y => rw [ih (h.field "operand" rfl rfl)]
    | _ => grind [recordType?, connectiveName, cases Connective]
  | binary c l r ihl ihr =>
    have htype := recordType?_eq_of_same h
    cases g with
    | binary d l' r' =>
      have hc : c = d := by
        cases c <;> cases d <;> simp_all [recordType?, connectiveName]
      rw [hc, ihl (h.field "left" rfl rfl), ihr (h.field "right" rfl rfl)]
    | _ => cases c <;> simp [recordType?, connectiveName] at htype
  | hole =>
    have htype := recordType?_eq_of_same h
    cases g <;> first | rfl | cases htype
  | foreign kind shown =>
    have htype := recordType?_eq_of_same h
    cases g with
    | foreign kind' shown' =>
      cases (h.field "kind" rfl rfl).eq_text
      cases (h.field "shown" rfl rfl).eq_text
      rfl
    | _ => grind [recordType?, connectiveName, cases Connective]

end Formula

open Formula

/-- **The walks follow the structure.** For every formula, whichever operands are missing, the text is
that of the recursion and the record is that of the recursion; and two formulas have records with the
same data only if they are equal. -/
theorem walks_follow_structure :
    (∀ f : Formula, f.text = f.rendered) ∧ (∀ f : Formula, f.toValue = f.record)
    ∧ ∀ f g : Formula, Value.Same f.toValue g.toValue ↔ f = g := by
  refine ⟨text_eq_rendered, toValue_eq_record, ?_⟩
  intro f g
  constructor
  · intro h
    rw [toValue_eq_record, toValue_eq_record] at h
    exact eq_of_same_record h
  · rintro rfl
    exact .refl _

end FlagLogic
