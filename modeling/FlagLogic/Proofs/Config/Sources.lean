import FlagLogic.Proofs.Config.Loading
import Mathlib.Tactic.MkIffOfInductiveProp

/-!
The configuration and its sources. Values given outright count before variables, variables before the
file of the project, and that before the file of the user. Main statement: this holds key by key, also
inside the sections, and the settings come in the order of the sources from the last one up
(`assemble_layered`).
-/

namespace FlagLogic.Config

open Value Layer

variable {α : Type} {read : Value → Except Misfit α} {entries : List (Value × Value)} {v : Value}

/-! ## Values that fit -/

/-- The value can be read. -/
def Fits (read : Value → Except Misfit α) (v : Value) : Prop := ∃ a, read v = .ok a

instance (read : Value → Except Misfit α) (v : Value) : Decidable (Fits read v) :=
  match h : read v with
  | .ok a => isTrue ⟨a, h⟩
  | .error misfit => isFalse fun ⟨a, ha⟩ => by simp [h] at ha

/-- What is read from the value that is found, or the default if there is none. -/
def Chosen (read : Value → Except Misfit α) (default : α) (found : Option Value) (a : α) : Prop :=
  match found with
  | some v => read v = .ok a
  | none => a = default

/-- What a reader takes that takes no maps. -/
theorem flat_of_fits (hmap : ∀ entries a, read (.map entries) ≠ .ok a) (h : Fits read v) :
    Flat v := by
  rintro entries rfl
  obtain ⟨a, ha⟩ := h
  exact hmap entries a ha

theorem exists_chosen_field {key : String} (default : α) (place : List Value)
    (h : ∀ v, find? entries (.text key) = some v → Fits read v) :
    ∃ a, field entries key default (fit place read) = .ok a
      ∧ Chosen read default (find? entries (.text key)) a := by
  unfold field
  cases hfind : find? entries (.text key) with
  | none => exact ⟨default, rfl, rfl⟩
  | some v =>
    obtain ⟨a, ha⟩ := h v hfind
    exact ⟨a, by simp [fit, ha], ha⟩

/-- A section that is not there is as good as an empty one. -/
theorem field_of_sectioned {name : String} {default : α} (h : Sectioned entries name)
    (read : Value → Checked α) (hempty : read (.map []) = .ok default) :
    field entries name default read = read (.map (sectionOf entries name)) := by
  unfold field
  cases hfind : find? entries (.text name) with
  | none =>
    have hnil : sectionOf entries name = [] := by
      rw [sectionOf, hfind, entriesOf_none]
    rw [hnil, hempty]
  | some v => rw [h v hfind]

/-! ## Settings -/

/-- The settings of a section: its names in order, each with the truth value that its value stands
for. -/
theorem exists_settingsOf (hnamed : Named entries) (hfits : ∀ e ∈ entries, Fits Coercion.bool e.2) :
    ∃ settings, settingsOf (.map entries) = .ok settings
      ∧ settings.map (·.1) = names entries
      ∧ ∀ name, Chosen (fun v => (Coercion.bool v).map some) none (find? entries (.text name))
        (settings.lookup name) := by
  induction entries with
  | nil => exact ⟨[], rfl, rfl, fun _ => rfl⟩
  | cons e rest ih =>
    obtain ⟨he, hrest⟩ := List.forall_mem_cons.mp hnamed
    obtain ⟨⟨b, hb⟩, hfits⟩ := List.forall_mem_cons.mp hfits
    obtain ⟨settings, hsettings, hnames, hlookup⟩ := ih hrest hfits
    obtain ⟨s, hs⟩ := isText_iff.mp he
    obtain ⟨k, v⟩ := e
    obtain rfl : k = .text s := hs
    refine ⟨(s, b) :: settings, ?_, congrArg (s :: ·) hnames, ?_⟩
    · simp only [settingsOf] at hsettings ⊢
      rw [List.map_cons, Checked.all, hsettings]
      simp only [fit, hb]
      rfl
    · intro name
      rw [find?_cons, List.lookup_cons]
      by_cases hname : name = s
      · subst hname
        simp [Chosen, hb, Except.map]
      · have hne : ¬sameKey (.text name) (.text s) := by
          simpa using Ne.symm hname
        have hbeq : (name == s) = false := by simpa using hname
        rw [if_neg hne, hbeq]
        exact hlookup name

/-! ## Sources -/

/-- The value that a source has under a key of a section. -/
def valueIn? (name key : String) (source : List (Value × Value)) : Option Value :=
  find? (sectionOf source name) (.text key)

/-- A proper source: each of its sections is a map, and every value that counts can be read. -/
@[mk_iff]
structure Proper (source : List (Value × Value)) : Prop where
  distinct : Distinct source
  sections : ∀ name ∈ ["parser", "evaluation", "settings"],
    Sectioned source name ∧ Distinct (sectionOf source name)
  operations : ∀ v, valueIn? "parser" "operation_limit" source = some v →
    Fits (Coercion.bounded 2 1000) v
  depth : ∀ v, valueIn? "parser" "max_depth" source = some v → Fits (Coercion.bounded 1 500) v
  missing : ∀ v, valueIn? "evaluation" "missing_setting" source = some v → Fits Coercion.policy v
  verbosity : ∀ v, find? source (.text "verbosity") = some v → Fits Coercion.verbosity v
  names : Named (sectionOf source "settings")
  settings : ∀ e ∈ sectionOf source "settings", Fits Coercion.bool e.2

instance (source : List (Value × Value)) : Decidable (Proper source) :=
  decidable_of_iff' _ (proper_iff source)

/-- The configuration takes each value from the first source that has its key, and else it is the
default. The settings come in the order of the sources from the last one up, each where it comes
first. -/
structure Layered (sources : List (List (Value × Value))) (c : Config) : Prop where
  operations : Chosen (Coercion.bounded 2 1000) 1000
    (sources.findSome? (valueIn? "parser" "operation_limit")) c.limits.operations
  depth : Chosen (Coercion.bounded 1 500) 64
    (sources.findSome? (valueIn? "parser" "max_depth")) c.limits.depth
  missing : Chosen Coercion.policy .lenient
    (sources.findSome? (valueIn? "evaluation" "missing_setting")) c.missing
  verbosity : Chosen Coercion.verbosity .warning
    (sources.findSome? (find? · (.text "verbosity"))) c.verbosity
  settings : ∀ name, Chosen (fun v => (Coercion.bool v).map some) none
    (sources.findSome? (valueIn? "settings" name)) (c.settings.lookup name)
  order : c.settings.map (·.1) =
    (sources.reverse.flatMap fun source => Value.names (sectionOf source "settings")).eraseDups

variable {sources : List (List (Value × Value))}

/-- The first source with the key counts, if no source has a map there. -/
theorem exists_chosen_of_find?_eq {get : List (Value × Value) → Option Value} {key : String}
    (default : α) (place : List Value) (hfind : find? entries (.text key) = sources.findSome? get)
    (h : ∀ source ∈ sources, ∀ v, get source = some v → Fits read v) :
    ∃ a, field entries key default (fit place read) = .ok a
      ∧ Chosen read default (sources.findSome? get) a := by
  rw [← hfind]
  refine exists_chosen_field default place ?_
  intro v hv
  rw [hfind] at hv
  obtain ⟨source, hsource, hget⟩ := List.exists_of_findSome?_eq_some hv
  exact h source hsource v hget

section

variable {name : String} (h : ∀ source ∈ sources, Distinct source)
  (hsections : ∀ source ∈ sources, Sectioned source name ∧ Distinct (sectionOf source name))
include h hsections

theorem sectionOf_stack_sources : Sectioned (stack sources) name
    ∧ sectionOf (stack sources) name = stack (sources.map (sectionOf · name)) :=
  sectionOf_stack h (fun source hs => (hsections source hs).1) fun source hs => (hsections source hs).2

/-- In a section, the first source with the key counts. -/
theorem valueIn?_stack {key : String}
    (hflat : ∀ source ∈ sources, ∀ v, valueIn? name key source = some v → Flat v) :
    valueIn? name key (stack sources) = sources.findSome? (valueIn? name key) := by
  have hdistinct : ∀ layer ∈ sources.map (sectionOf · name), Distinct layer :=
    List.forall_mem_map.mpr fun source hs => (hsections source hs).2
  rw [valueIn?, (sectionOf_stack_sources h hsections).2,
    find?_stack hdistinct (List.forall_mem_map.mpr hflat), List.findSome?_map]
  rfl

theorem exists_chosen_in_section {key : String} (default : α) (place : List Value)
    (hmap : ∀ entries a, read (.map entries) ≠ .ok a)
    (hfits : ∀ source ∈ sources, ∀ v, valueIn? name key source = some v → Fits read v) :
    ∃ a, field (sectionOf (stack sources) name) key default (fit place read) = .ok a
      ∧ Chosen read default (sources.findSome? (valueIn? name key)) a :=
  exists_chosen_of_find?_eq default place
    (valueIn?_stack h hsections fun source hs v hv => flat_of_fits hmap (hfits source hs v hv)) hfits

end

/-- The settings of all sources together. -/
theorem exists_settingsOf_stack (h : ∀ source ∈ sources, Proper source) :
    ∃ settings, settingsOf (.map (sectionOf (stack sources) "settings")) = .ok settings
      ∧ settings.map (·.1) =
        (sources.reverse.flatMap fun source => Value.names (sectionOf source "settings")).eraseDups
      ∧ ∀ name, Chosen (fun v => (Coercion.bool v).map some) none
        (sources.findSome? (valueIn? "settings" name)) (settings.lookup name) := by
  have hproper : ∀ source ∈ sources, Distinct source := fun source hs => (h source hs).distinct
  have hsections : ∀ source ∈ sources,
      Sectioned source "settings" ∧ Distinct (sectionOf source "settings") :=
    fun source hs => (h source hs).sections "settings" (by simp)
  have hdistinct : ∀ layer ∈ sources.map (sectionOf · "settings"), Distinct layer :=
    List.forall_mem_map.mpr fun source hs => (hsections source hs).2
  have hnamed : ∀ layer ∈ sources.map (sectionOf · "settings"), Named layer :=
    List.forall_mem_map.mpr fun source hs => (h source hs).names
  have hfits : ∀ layer ∈ sources.map (sectionOf · "settings"), ∀ k v, find? layer k = some v →
      Fits Coercion.bool v := by
    rw [List.forall_mem_map]
    intro source hs k v hv
    obtain ⟨e, he, -, rfl⟩ := exists_mem_of_find? hv
    exact (h source hs).settings e he
  have hentries := (sectionOf_stack_sources hproper hsections).2
  have hall : ∀ e ∈ sectionOf (stack sources) "settings", Fits Coercion.bool e.2 := by
    intro e he
    rw [hentries] at he
    have hfind := (distinct_stack hdistinct).find?_of_mem he
    rw [find?_stack hdistinct fun layer hl v hv => flat_of_fits nofun (hfits layer hl _ v hv)] at hfind
    obtain ⟨layer, hl, hlayer⟩ := List.exists_of_findSome?_eq_some hfind
    exact hfits layer hl _ _ hlayer
  obtain ⟨settings, hsettings, hnames, hlookup⟩ :=
    exists_settingsOf (hentries ▸ named_stack.mpr hnamed) hall
  refine ⟨settings, hsettings, ?_, ?_⟩
  · rw [hnames, hentries, names_stack hdistinct hnamed, ← List.map_reverse, List.flatMap_map]
  · intro name
    have hvalue : valueIn? "settings" name (stack sources)
        = sources.findSome? (valueIn? "settings" name) := by
      refine valueIn?_stack hproper hsections ?_
      intro source hs v hv
      exact flat_of_fits nofun (hfits _ (List.mem_map_of_mem hs) _ v hv)
    rw [← hvalue]
    exact hlookup name

/-- Proper sources over each other make a configuration. -/
theorem exists_ofEntries_stack (h : ∀ source ∈ sources, Proper source) :
    ∃ c, ofEntries (stack sources) = .ok c ∧ Layered sources c := by
  have hdistinct : ∀ source ∈ sources, Distinct source := fun source hs => (h source hs).distinct
  have hparser : ∀ source ∈ sources,
      Sectioned source "parser" ∧ Distinct (sectionOf source "parser") :=
    fun source hs => (h source hs).sections "parser" (by simp)
  have hevaluation : ∀ source ∈ sources,
      Sectioned source "evaluation" ∧ Distinct (sectionOf source "evaluation") :=
    fun source hs => (h source hs).sections "evaluation" (by simp)
  have hsection : ∀ source ∈ sources,
      Sectioned source "settings" ∧ Distinct (sectionOf source "settings") :=
    fun source hs => (h source hs).sections "settings" (by simp)
  obtain ⟨operations, hoperations, hchosenOperations⟩ :=
    exists_chosen_in_section hdistinct hparser 1000 [.text "parser", .text "operation_limit"] nofun
      fun source hs => (h source hs).operations
  obtain ⟨depth, hdepth, hchosenDepth⟩ :=
    exists_chosen_in_section hdistinct hparser 64 [.text "parser", .text "max_depth"] nofun
      fun source hs => (h source hs).depth
  obtain ⟨missing, hmissing, hchosenMissing⟩ :=
    exists_chosen_in_section hdistinct hevaluation .lenient
      [.text "evaluation", .text "missing_setting"] nofun fun source hs => (h source hs).missing
  obtain ⟨verbosity, hverbosity, hchosenVerbosity⟩ :=
    exists_chosen_of_find?_eq .warning [.text "verbosity"]
      (find?_stack hdistinct fun source hs v hv =>
        flat_of_fits nofun ((h source hs).verbosity v hv)) fun source hs => (h source hs).verbosity
  obtain ⟨settings, hsettings, horder, hlookup⟩ := exists_settingsOf_stack h
  refine ⟨{ limits := ⟨operations, depth⟩, missing, settings, verbosity }, ?_,
    ⟨hchosenOperations, hchosenDepth, hchosenMissing, hchosenVerbosity, hlookup, horder⟩⟩
  simp only [ofEntries]
  rw [field_of_sectioned (sectionOf_stack_sources hdistinct hparser).1 limitsOf rfl,
    field_of_sectioned (sectionOf_stack_sources hdistinct hevaluation).1 missingOf rfl,
    field_of_sectioned (sectionOf_stack_sources hdistinct hsection).1 settingsOf rfl,
    hsettings, hverbosity]
  simp only [limitsOf, missingOf]
  rw [hoperations, hdepth, hmissing]
  rfl

end FlagLogic.Config
