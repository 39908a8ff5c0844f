import FlagLogic.Number.Binary64
import FlagLogic.Text.Quoted

/-!
Data as configuration files, environment variables and reports hold it: null, truth values, numbers,
texts, lists, and maps that keep the order in which their keys were first written. A file may hold
values of other kinds as well, such as dates; nothing is done with these but to show them.
-/

namespace FlagLogic

/-- A value of a data format. The keys of a map may be any values. -/
inductive Value where
  | null
  | bool (b : Bool)
  | int (i : Int)
  | float (x : Binary64)
  | text (s : String)
  | list (items : List Value)
  | map (entries : List (Value × Value))
  /-- A value of another kind: how the kind is called, how the value is shown in reports, and how it
  reads as running text. -/
  | other (kind shown plain : String)
  deriving Inhabited

namespace Value

/-- The name of the value's kind. -/
def kind : Value → String
  | null => "NoneType"
  | bool _ => "bool"
  | int _ => "int"
  | float _ => "float"
  | text _ => "str"
  | list _ => "list"
  | map _ => "dict"
  | other kind .. => kind

/-- Whether the value counts as true: null, false, zero and empty texts, lists and maps count as
false. -/
def truth : Value → Bool
  | null => false
  | bool b => b
  | int i => i != 0
  | float x => !x.isZero
  | text s => s != ""
  | list items => !items.isEmpty
  | map entries => !entries.isEmpty
  | other .. => true

/-- Whether the value is a text. -/
def isText : Value → Bool
  | text _ => true
  | _ => false

/-! ## Equality -/

mutual

/-- Two values are equal; of maps, also the order of the entries counts. -/
def equal : Value → Value → Bool
  | null, null => true
  | bool a, bool b => a == b
  | int a, int b => a == b
  | float a, float b => a == b
  | text a, text b => a == b
  | list as, list bs => equalItems as bs
  | map as, map bs => equalEntries as bs
  | other k s p, other l t q => k == l && s == t && p == q
  | _, _ => false

private def equalItems : List Value → List Value → Bool
  | [], [] => true
  | a :: as, b :: bs => equal a b && equalItems as bs
  | _, _ => false

private def equalEntries : List (Value × Value) → List (Value × Value) → Bool
  | [], [] => true
  | (k, v) :: as, (l, w) :: bs => equal k l && equal v w && equalEntries as bs
  | _, _ => false

end

mutual

theorem equal_iff (a b : Value) : equal a b = true ↔ a = b := by
  cases a <;> cases b <;> simp [equal, equalItems_iff, equalEntries_iff, and_assoc]

private theorem equalItems_iff (as bs : List Value) : equalItems as bs = true ↔ as = bs := by
  cases as <;> cases bs <;> simp [equalItems, equal_iff, equalItems_iff]

private theorem equalEntries_iff (as bs : List (Value × Value)) :
    equalEntries as bs = true ↔ as = bs := by
  match as, bs with
  | [], [] | [], _ :: _ | _ :: _, [] => simp [equalEntries]
  | (k, v) :: as, (l, w) :: bs =>
    simp [equalEntries, equal_iff k l, equal_iff v w, equalEntries_iff as bs]

end

instance : DecidableEq Value := fun a b => decidable_of_iff _ (equal_iff a b)

/-! ## Showing values -/

mutual

/-- The value as it is shown in reports: texts between quotes, lists in brackets, maps in braces. -/
def shown : Value → String
  | null => "None"
  | bool b => if b then "True" else "False"
  | int i => toString i
  | float x => x.text
  | text s => Text.quoted s
  | list items => "[" ++ ", ".intercalate (shownItems items) ++ "]"
  | map entries => "\x7b" ++ ", ".intercalate (shownEntries entries) ++ "\x7d"
  | other _ shown _ => shown

private def shownItems : List Value → List String
  | [] => []
  | v :: rest => v.shown :: shownItems rest

private def shownEntries : List (Value × Value) → List String
  | [] => []
  | (k, v) :: rest => (k.shown ++ ": " ++ v.shown) :: shownEntries rest

end

/-- The value as running text: a text as it is, most other values as they are shown. -/
def plain : Value → String
  | text s => s
  | other _ _ plain => plain
  | v => v.shown

/-! ## Maps -/

/-- The integer that a number or truth value is equal to, if any. -/
private def asInt? : Value → Option Int
  | bool b => some (if b then 1 else 0)
  | int i => some i
  | float x => x.toInt?
  | _ => none

/-- Two keys name the same entry: texts by their characters, numbers and truth values by their
numeric value. -/
def sameKey (a b : Value) : Bool :=
  match asInt? a, asInt? b with
  | some i, some j => i == j
  | none, none => a == b
  | _, _ => false

private theorem sameKey_iff {a b : Value} :
    sameKey a b = true ↔ asInt? a = asInt? b ∧ (asInt? a = none → a = b) := by
  unfold sameKey
  cases asInt? a <;> cases asInt? b <;> simp

@[simp] theorem sameKey_self (a : Value) : sameKey a a = true :=
  sameKey_iff.mpr ⟨rfl, fun _ => rfl⟩

theorem sameKey_symm {a b : Value} (h : sameKey a b = true) : sameKey b a = true := by
  obtain ⟨hint, heq⟩ := sameKey_iff.mp h
  exact sameKey_iff.mpr ⟨hint.symm, fun hb => (heq (hint.trans hb)).symm⟩

theorem sameKey_comm (a b : Value) : sameKey a b = sameKey b a :=
  Bool.eq_iff_iff.mpr ⟨sameKey_symm, sameKey_symm⟩

theorem sameKey_trans {a b c : Value} (hab : sameKey a b = true) (hbc : sameKey b c = true) :
    sameKey a c = true := by
  obtain ⟨hint, heq⟩ := sameKey_iff.mp hab
  obtain ⟨hint', heq'⟩ := sameKey_iff.mp hbc
  refine sameKey_iff.mpr ⟨hint.trans hint', fun ha => ?_⟩
  rw [heq ha, heq' (hint ▸ ha)]

/-- Keys that are the same are the same as the same keys. -/
theorem sameKey_congr {a b : Value} (h : sameKey a b = true) (c : Value) :
    sameKey a c = sameKey b c :=
  Bool.eq_iff_iff.mpr ⟨sameKey_trans (sameKey_symm h), sameKey_trans h⟩

/-- A text is the same key as itself only. -/
@[simp] theorem sameKey_text_iff {s : String} {v : Value} :
    sameKey (text s) v = true ↔ v = text s := by
  rw [sameKey_iff]
  constructor
  · rintro ⟨-, heq⟩
    exact (heq rfl).symm
  · rintro rfl
    exact ⟨rfl, fun _ => rfl⟩

/-- Writes an entry. A key that is present keeps its place and its spelling. -/
def put (entries : List (Value × Value)) (key value : Value) : List (Value × Value) :=
  if entries.any (sameKey key ·.1) then
    entries.map fun e => if sameKey key e.1 then (e.1, value) else e
  else entries ++ [(key, value)]

/-- The value under a key. -/
def find? (entries : List (Value × Value)) (key : Value) : Option Value :=
  (entries.find? (sameKey key ·.1)).map (·.2)

/-- The value under a text key of a map; nothing for any other value. -/
def get? (v : Value) (key : String) : Option Value :=
  match v with
  | map entries => find? entries (text key)
  | _ => none

/-- A map from text keys. -/
def record (fields : List (String × Value)) : Value :=
  map (fields.map fun (k, v) => (text k, v))

end Value

end FlagLogic
