import FlagLogic.Config.Load
import FlagLogic.Proofs.Config.Layers

/-!
What can come of loading the configuration. Where files are at fault, or data that do not fit, the
error is reported as one of the configuration; three kinds of fault slip through. Main statement:
exactly when the configuration is loaded or the error is reported (`load_contained_iff`). It is about
all libraries for YAML, whatever they make of the files.
-/

namespace FlagLogic.Config

open Value

/-- There is a configuration, or an error that is reported as one of the configuration. -/
def Contained : Except LoadError Config → Prop
  | .ok _ => True
  | .error e => e.isReported = true

/-! ## Files -/

/-- There is a file at the path, and the library for YAML fails on it, which is no fault of its
format. -/
def FailsWith (s : Surroundings) (path : String) (failure : Yaml.Failure) : Prop :=
  ∃ text, s.entry path = .file text ∧ s.yaml.load (some path) text = .failed failure

theorem FailsWith.outcome_fileLayer {s : Surroundings} {path : String} {failure : Yaml.Failure}
    (h : FailsWith s path failure) : (fileLayer s path).outcome = .error (.yamlFailed failure) := by
  obtain ⟨text, hentry, hload⟩ := h
  simp only [fileLayer, hentry, hload]
  rfl

/-- The library fails on no file that gives data. -/
theorem not_failsWith_of_fileLayer {s : Surroundings} {path : String}
    {layer : List (Value × Value)} (h : (fileLayer s path).outcome = .ok layer)
    (failure : Yaml.Failure) : ¬FailsWith s path failure := by
  intro hfails
  rw [hfails.outcome_fileLayer] at h
  cases h

/-- A file that cannot be taken as data is reported, unless the library fails on it. -/
theorem fileLayer_error_cases {s : Surroundings} {path : String} {e : LoadError}
    (hfile : s.entry path ≠ .directory) (h : (fileLayer s path).outcome = .error e) :
    (e.isReported = true ∧ ∀ failure, ¬FailsWith s path failure)
    ∨ ∃ failure, FailsWith s path failure ∧ e = .yamlFailed failure := by
  by_cases hfails : ∃ failure, FailsWith s path failure
  · right
    obtain ⟨failure, hfails⟩ := hfails
    rw [hfails.outcome_fileLayer] at h
    cases h
    exact ⟨failure, hfails, rfl⟩
  · left
    refine ⟨?_, not_exists.mp hfails⟩
    unfold fileLayer at h
    split at h
    · cases h
    · next hdirectory => exact absurd hdirectory hfile
    · next text hentry =>
      split at h
      · cases h
        rfl
      · next failure hload => exact absurd ⟨failure, text, hentry, hload⟩ hfails
      · cases h
      · cases h
      · cases h
        rfl

/-! ## Variables -/

/-- The parts of the configuration that a variable can hold as a whole. -/
def wholeParts : List Part := [.limits, .evaluation, .settings]

/-- There is a variable for the whole part, and its value is not JSON. -/
def Part.Unreadable (vars : List (String × String)) (p : Part) : Prop :=
  ∃ text, (lowered vars).lookup (variablePrefix ++ p.name) = some text ∧ Json.parse? text = none

theorem Part.read?_eq_none_iff {vars : List (String × String)} {p : Part} :
    p.read? (lowered vars) = none ↔ p.Unreadable vars := by
  unfold Part.read? Part.Unreadable
  cases (lowered vars).lookup (variablePrefix ++ p.name) with
  | none => simp
  | some text =>
    simp only [Option.some.injEq, exists_eq_left']
    cases Json.parse? text with
    | none => simp
    | some v => cases v <;> simp

/-- What a part contributes to the layer of the variables. -/
private def Part.entry (vars : List (String × String)) (p : Part) :
    Except String (Option (Value × Value)) :=
  match p.read? vars with
  | some v => .ok (v.map fun v => (.text p.name, v))
  | none => .error p.name

/-- The contributions of parts are collected, or the first part that cannot be read is the end of
it. -/
private theorem filterMapM_entry_cases (vars : List (String × String)) (parts : List Part) :
    (∃ layer, parts.filterMapM (Part.entry vars) = .ok layer ∧ Named layer
      ∧ ∀ p ∈ parts, p.read? vars ≠ none)
    ∨ ∃ p ∈ parts, p.read? vars = none ∧ parts.filterMapM (Part.entry vars) = .error p.name := by
  induction parts with
  | nil => exact .inl ⟨[], rfl, named_nil, by simp⟩
  | cons p parts ih =>
    rw [List.filterMapM_cons]
    cases hp : p.read? vars with
    | none =>
      right
      refine ⟨p, List.mem_cons_self .., hp, ?_⟩
      rw [Part.entry, hp]
      rfl
    | some v =>
      have hentry : Part.entry vars p = .ok (v.map fun v => (.text p.name, v)) := by
        rw [Part.entry, hp]
      rw [hentry]
      rcases ih with ⟨layer, hlayer, hnamed, hall⟩ | ⟨q, hq, hread, herror⟩
      · left
        have hcons : ∀ q ∈ p :: parts, q.read? vars ≠ none :=
          List.forall_mem_cons.mpr ⟨by simp [hp], hall⟩
        cases v with
        | none => exact ⟨layer, hlayer, hnamed, hcons⟩
        | some v =>
          refine ⟨(.text p.name, v) :: layer, ?_, List.forall_mem_cons.mpr ⟨rfl, hnamed⟩, hcons⟩
          show (parts.filterMapM (Part.entry vars) >>= fun bs => .ok (_ :: bs)) = _
          rw [hlayer]
          rfl
      · right
        refine ⟨q, List.mem_cons_of_mem _ hq, hread, ?_⟩
        cases v with
        | none => exact herror
        | some v =>
          show (parts.filterMapM (Part.entry vars) >>= fun bs => .ok (_ :: bs)) = _
          rw [herror]
          rfl

/-- Either the variables make a layer with names for keys, or a variable for a whole part cannot be
read. -/
theorem variableLayer_cases (vars : List (String × String)) :
    (∃ layer, variableLayer vars = .ok layer ∧ Named layer
      ∧ ∀ p ∈ wholeParts, ¬p.Unreadable vars)
    ∨ ∃ p ∈ wholeParts, p.Unreadable vars ∧ variableLayer vars = .error p.name := by
  have hlayer : variableLayer vars = (do
      let parts ← wholeParts.filterMapM (Part.entry (lowered vars))
      let verbosity := ((lowered vars).lookup (variablePrefix ++ "verbosity")).toList
      return parts ++ verbosity.map fun v => (.text "verbosity", .text v)) := rfl
  rw [hlayer]
  simp only [← Part.read?_eq_none_iff]
  rcases filterMapM_entry_cases (lowered vars) wholeParts with
    ⟨layer, hparts, hnamed, hall⟩ | ⟨p, hp, hread, herror⟩
  · left
    rw [hparts]
    refine ⟨_, rfl, ?_, hall⟩
    rw [Named, keys, List.map_append, List.forall_mem_append]
    refine ⟨hnamed, ?_⟩
    simp [Value.isText]
  · right
    rw [herror]
    exact ⟨p, hp, hread, rfl⟩

/-! ## Layers -/

/-- Layers whose keys are all names are checked; others are refused. -/
theorem ofLayers_eq (layers : List (List (Value × Value))) : ofLayers layers =
    if ∀ layer ∈ layers, Named layer then (ofEntries (Layer.stack layers)).mapError .invalid
    else .error .keyword := by
  have heq : ofLayers layers =
      if (Layer.stack layers).all (·.1.isText) then (ofEntries (Layer.stack layers)).mapError .invalid
      else .error .keyword := rfl
  have hall : (Layer.stack layers).all (·.1.isText) = true ↔ ∀ layer ∈ layers, Named layer := by
    rw [← Layer.named_stack, Named, keys, List.forall_mem_map, List.all_eq_true]
  rw [heq]
  simp only [hall]

theorem contained_ofLayers {layers : List (List (Value × Value))}
    (h : ∀ layer ∈ layers, Named layer) : Contained (ofLayers layers) := by
  rw [ofLayers_eq, if_pos h]
  cases ofEntries (Layer.stack layers) with
  | ok c => trivial
  | error problems => rfl

/-! ## Loading -/

/-- What can come of values given outright, two files and variables. -/
inductive Assembly (s : Surroundings) (given : List (Value × Value)) (project : String) :
    Except LoadError Config → Prop
  /-- The file of the project cannot be taken as data. -/
  | project {e : LoadError} (h : (fileLayer s project).outcome = .error e) :
      Assembly s given project (.error e)
  /-- The file of the user cannot be taken as data. -/
  | user {projectLayer : List (Value × Value)} {e : LoadError}
      (hproject : (fileLayer s project).outcome = .ok projectLayer)
      (h : (fileLayer s s.userFile).outcome = .error e) : Assembly s given project (.error e)
  /-- The files are there, but a variable for a whole part cannot be read. -/
  | unreadable {projectLayer userLayer : List (Value × Value)} {p : Part}
      (hproject : (fileLayer s project).outcome = .ok projectLayer)
      (huser : (fileLayer s s.userFile).outcome = .ok userLayer)
      (hp : p ∈ wholeParts) (hread : p.Unreadable s.vars) :
      Assembly s given project (.error (.notJson p.name))
  /-- All layers are there. -/
  | layers {projectLayer userLayer vars : List (Value × Value)}
      (hproject : (fileLayer s project).outcome = .ok projectLayer)
      (huser : (fileLayer s s.userFile).outcome = .ok userLayer)
      (hnamed : Named vars) (hread : ∀ p ∈ wholeParts, ¬p.Unreadable s.vars) :
      Assembly s given project (ofLayers [given, vars, projectLayer, userLayer])

theorem assembly_assemble (s : Surroundings) (given : List (Value × Value)) (project : String) :
    Assembly s given project (assemble s given project).outcome := by
  rw [outcome_assemble]
  cases hproject : (fileLayer s project).outcome with
  | error e => exact .project hproject
  | ok projectLayer =>
    cases huser : (fileLayer s s.userFile).outcome with
    | error e => exact .user hproject huser
    | ok userLayer =>
      rcases variableLayer_cases s.vars with ⟨layer, hlayer, hnamed, hread⟩ | ⟨p, hp, hread, herror⟩
      · rw [hlayer]
        exact .layers hproject huser hnamed hread
      · rw [herror]
        exact .unreadable hproject huser hp hread

/-- Nothing is there that slips through: the library does not fail on a file that is read, and once
both files have given data, the variables for whole parts are JSON and the keys at the top of both files
are texts. The file of the user is read only if that of the project has given data. -/
def Sound (s : Surroundings) (project : String) : Prop :=
  (∀ failure, ¬FailsWith s project failure)
  ∧ ∀ projectLayer, (fileLayer s project).outcome = .ok projectLayer →
    (∀ failure, ¬FailsWith s s.userFile failure)
    ∧ ∀ userLayer, (fileLayer s s.userFile).outcome = .ok userLayer →
      (∀ p ∈ wholeParts, ¬p.Unreadable s.vars) ∧ Named projectLayer ∧ Named userLayer

namespace Assembly

variable {s : Surroundings} {given : List (Value × Value)} {project : String}
  {outcome : Except LoadError Config}

/-- A configuration, or an error that is reported, comes of sound surroundings and of no others. -/
theorem contained_iff (h : Assembly s given project outcome) (hgiven : Named given)
    (hfiles : ∀ file ∈ [project, s.userFile], s.entry file ≠ .directory) :
    Contained outcome ↔ Sound s project := by
  cases h with
  | project h =>
    rcases fileLayer_error_cases (hfiles project (by simp)) h with
      ⟨hreported, hnot⟩ | ⟨failure, hfails, rfl⟩
    · refine iff_of_true hreported ⟨hnot, ?_⟩
      intro projectLayer hproject
      cases h.symm.trans hproject
    · exact iff_of_false nofun fun hsound => hsound.1 failure hfails
  | @user projectLayer e hproject h =>
    rcases fileLayer_error_cases (hfiles s.userFile (by simp)) h with
      ⟨hreported, hnot⟩ | ⟨failure, hfails, rfl⟩
    · refine iff_of_true hreported ⟨not_failsWith_of_fileLayer hproject, ?_⟩
      intro _ _
      refine ⟨hnot, ?_⟩
      intro userLayer huser
      cases h.symm.trans huser
    · exact iff_of_false nofun fun hsound => (hsound.2 projectLayer hproject).1 failure hfails
  | @unreadable projectLayer userLayer p hproject huser hp hread =>
    refine iff_of_false nofun ?_
    intro hsound
    exact ((hsound.2 projectLayer hproject).2 userLayer huser).1 p hp hread
  | @layers projectLayer userLayer vars hproject huser hnamed hread =>
    have hlayers : (∀ layer ∈ [given, vars, projectLayer, userLayer], Named layer)
        ↔ Named projectLayer ∧ Named userLayer := by
      simp [hgiven, hnamed]
    by_cases h : Named projectLayer ∧ Named userLayer
    · refine iff_of_true (contained_ofLayers (hlayers.mpr h))
        ⟨not_failsWith_of_fileLayer hproject, ?_⟩
      intro projectLayer' hproject'
      cases hproject.symm.trans hproject'
      refine ⟨not_failsWith_of_fileLayer huser, ?_⟩
      intro userLayer' huser'
      cases huser.symm.trans huser'
      exact ⟨hread, h⟩
    · rw [ofLayers_eq, if_neg (h ∘ hlayers.mp)]
      refine iff_of_false nofun ?_
      intro hsound
      exact h ((hsound.2 projectLayer hproject).2 userLayer huser).2

/-- The errors that slip through are of three kinds. -/
theorem escaped {e : LoadError} (h : Assembly s given project (.error e))
    (hfiles : ∀ file ∈ [project, s.userFile], s.entry file ≠ .directory)
    (he : e.isReported = false) :
    (∃ file ∈ [project, s.userFile], ∃ failure, FailsWith s file failure ∧ e = .yamlFailed failure)
    ∨ (∃ p ∈ wholeParts, p.Unreadable s.vars ∧ e = .notJson p.name) ∨ e = .keyword := by
  have hfile {file : String} (hmem : file ∈ [project, s.userFile])
      (h : (fileLayer s file).outcome = .error e) :
      ∃ file ∈ [project, s.userFile], ∃ failure, FailsWith s file failure
        ∧ e = .yamlFailed failure := by
    rcases fileLayer_error_cases (hfiles file hmem) h with ⟨hreported, -⟩ | hfails
    · simp [hreported] at he
    · exact ⟨file, hmem, hfails⟩
  generalize houtcome : Except.error e = outcome at h
  cases h with
  | project h =>
    cases houtcome
    exact .inl (hfile (by simp) h)
  | user _ h =>
    cases houtcome
    exact .inl (hfile (by simp) h)
  | unreadable _ _ hp hread =>
    cases houtcome
    exact .inr (.inl ⟨_, hp, hread, rfl⟩)
  | @layers projectLayer userLayer vars =>
    by_cases hnamed : ∀ layer ∈ [given, vars, projectLayer, userLayer], Named layer
    · have hcontained := contained_ofLayers hnamed
      rw [← houtcome, Contained, he] at hcontained
      cases hcontained
    · rw [ofLayers_eq, if_neg hnamed] at houtcome
      cases houtcome
      exact .inr (.inr rfl)

end Assembly

end FlagLogic.Config
