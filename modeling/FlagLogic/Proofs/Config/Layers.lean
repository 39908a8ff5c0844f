import FlagLogic.Config.Layer
import FlagLogic.Proofs.Value.Maps
import Mathlib.Data.List.Induction

/-!
Layers of data over each other. Under a key where no layer has a map, a stack of layers has what the
uppermost layer that holds the key has (`find?_stack`); under a key where every layer that holds it
has a map, it has these maps over each other (`sectionOf_stack`). The keys come in the order of the
layers from the lowest one up, each key where it comes first (`names_stack`).
-/

namespace FlagLogic.Layer

open Value

variable {layers : List (List (Value × Value))} {lower upper : List (Value × Value)} {k v : Value}
  {name : String}

/-! ## One layer over another -/

/-- The value is not a map. -/
def Flat (v : Value) : Prop := ∀ entries, v ≠ .map entries

theorem overlaid_of_flat (h : Flat v) (below : Option Value) : overlaid below v = v := by
  cases v with
  | map entries => exact absurd rfl (h entries)
  | null | bool | int | float | text | list | other => simp [overlaid]

theorem overlaid_none (v : Value) : overlaid none v = v := by
  cases v <;> simp [overlaid]

/-- What stands under a key: what the upper layer has there, laid over what the lower one has. -/
theorem find?_overlay (h : Distinct upper) (lower : List (Value × Value)) (k : Value) :
    find? (overlay lower upper) k =
      match find? upper k with
      | some v => some (overlaid (find? lower k) v)
      | none => find? lower k := by
  induction upper generalizing lower with
  | nil => rw [overlay]; rfl
  | cons e rest ih =>
    obtain ⟨l, w⟩ := e
    obtain ⟨hl, hrest⟩ := List.pairwise_cons.mp h
    rw [overlay, ih hrest, find?_cons, find?_put]
    by_cases hkl : sameKey k l
    · -- the rest of the upper layer does not hold the key again
      have hnone : find? rest k = none := by
        rw [find?_eq_none_iff]
        intro e he
        rw [sameKey_congr hkl]
        exact hl e.1 (List.mem_map_of_mem he)
      simp [hnone, hkl, find?_congr hkl]
    · simp [hkl]

theorem find?_overlay_of_flat (h : Distinct upper) (hflat : ∀ v, find? upper k = some v → Flat v) :
    find? (overlay lower upper) k = (find? upper k).or (find? lower k) := by
  rw [find?_overlay h]
  cases hk : find? upper k with
  | none => rfl
  | some v => simp [overlaid_of_flat (hflat v hk)]

theorem distinct_overlay (h : Distinct lower) (upper : List (Value × Value)) :
    Distinct (overlay lower upper) := by
  induction upper generalizing lower with
  | nil => rwa [overlay]
  | cons e rest ih =>
    rw [overlay]
    exact ih (h.put _ _)

theorem named_overlay : Named (overlay lower upper) ↔ Named lower ∧ Named upper := by
  induction upper generalizing lower with
  | nil => simp [overlay]
  | cons e rest ih =>
    rw [overlay, ih, named_put]
    simp [Named, keys, and_assoc]

/-! ## Names without repeats -/

theorem eraseDups_append_singleton (names : List String) (name : String) :
    (names ++ [name]).eraseDups =
      if name ∈ names then names.eraseDups else names.eraseDups ++ [name] := by
  rw [List.eraseDups_append]
  by_cases h : name ∈ names <;> simp [List.removeAll, List.eraseDups_cons, h]

theorem eraseDups_of_nodup {names : List String} (h : names.Nodup) : names.eraseDups = names := by
  induction names with
  | nil => rfl
  | cons name names ih =>
    obtain ⟨hname, hnames⟩ := List.nodup_cons.mp h
    have hfilter : names.filter (fun x => !x == name) = names := by
      rw [List.filter_eq_self]
      intro x hx
      have hne : x ≠ name := fun heq => hname (heq ▸ hx)
      simpa using hne
    rw [List.eraseDups_cons, hfilter, ih hnames]

theorem eraseDups_append_eraseDups (as bs : List String) :
    (as ++ bs.eraseDups).eraseDups = (as ++ bs).eraseDups := by
  induction bs using List.reverseRecOn with
  | nil => rfl
  | append_singleton bs b ih =>
    rw [eraseDups_append_singleton, ← List.append_assoc as bs, eraseDups_append_singleton]
    by_cases hb : b ∈ bs
    · simp [hb, ih]
    · rw [if_neg hb, ← List.append_assoc, eraseDups_append_singleton, ih]
      simp

theorem eraseDups_eraseDups_append (as bs : List String) :
    (as.eraseDups ++ bs).eraseDups = (as ++ bs).eraseDups := by
  induction bs using List.reverseRecOn with
  | nil => simpa using eraseDups_append_eraseDups [] as
  | append_singleton bs b ih =>
    rw [← List.append_assoc, ← List.append_assoc, eraseDups_append_singleton,
      eraseDups_append_singleton, ih]
    simp

/-- The names of the lower layer come first, and those that only the upper one has come behind
them. -/
theorem names_overlay (h : Distinct lower) (hupper : Named upper) :
    names (overlay lower upper) = (names lower ++ names upper).eraseDups := by
  induction upper generalizing lower with
  | nil =>
    have hnil : names [] = [] := rfl
    rw [overlay, hnil, List.append_nil, eraseDups_of_nodup h.nodup_names]
  | cons e rest ih =>
    obtain ⟨he, hrest⟩ := List.forall_mem_cons.mp hupper
    obtain ⟨s, hs⟩ := isText_iff.mp he
    obtain ⟨l, w⟩ := e
    obtain rfl : l = .text s := hs
    have hput (w : Value) : names (put lower (.text s) w) = (names lower ++ [s]).eraseDups := by
      rw [names_put, eraseDups_append_singleton, eraseDups_of_nodup h.nodup_names]
    have hcons : names ((.text s, w) :: rest) = s :: names rest := rfl
    rw [overlay, ih (h.put _ _) hrest, hput, eraseDups_eraseDups_append, hcons,
      List.append_assoc, List.singleton_append]

/-! ## All layers over each other -/

@[simp] theorem stack_nil : stack [] = [] := rfl

@[simp] theorem stack_append_singleton (layers : List (List (Value × Value)))
    (lowest : List (Value × Value)) : stack (layers ++ [lowest]) = overlay lowest (stack layers) := by
  rw [stack, List.foldl_append]
  rfl

theorem distinct_stack (h : ∀ layer ∈ layers, Distinct layer) : Distinct (stack layers) := by
  induction layers using List.reverseRecOn with
  | nil => exact List.Pairwise.nil
  | append_singleton layers lowest _ =>
    rw [stack_append_singleton]
    exact distinct_overlay (h lowest (by simp)) _

/-- All keys of a stack are texts exactly if all keys of all its layers are. -/
theorem named_stack : Named (stack layers) ↔ ∀ layer ∈ layers, Named layer := by
  induction layers using List.reverseRecOn with
  | nil => simp
  | append_singleton layers lowest ih =>
    rw [stack_append_singleton, named_overlay, ih, List.forall_mem_append,
      List.forall_mem_singleton, and_comm]

/-- **The uppermost layer counts.** Under a key where no layer has a map, there stands in the stack
what the uppermost layer that holds the key has. -/
theorem find?_stack (h : ∀ layer ∈ layers, Distinct layer)
    (hflat : ∀ layer ∈ layers, ∀ v, find? layer k = some v → Flat v) :
    find? (stack layers) k = layers.findSome? (find? · k) := by
  induction layers using List.reverseRecOn with
  | nil => rfl
  | append_singleton layers lowest ih =>
    obtain ⟨hlayers, -⟩ := List.forall_mem_append.mp h
    obtain ⟨hflats, -⟩ := List.forall_mem_append.mp hflat
    have hstack := ih hlayers hflats
    have hupper : ∀ v, find? (stack layers) k = some v → Flat v := by
      intro v hv
      rw [hstack] at hv
      obtain ⟨layer, hlayer, hfind⟩ := List.exists_of_findSome?_eq_some hv
      exact hflats layer hlayer v hfind
    rw [stack_append_singleton, find?_overlay_of_flat (distinct_stack hlayers) hupper, hstack,
      List.findSome?_append]
    congr 1
    simp

/-- The names of a stack: those of all layers, from the lowest layer up, each where it comes
first. -/
theorem names_stack (h : ∀ layer ∈ layers, Distinct layer) (hnamed : ∀ layer ∈ layers, Named layer) :
    names (stack layers) = (layers.reverse.flatMap names).eraseDups := by
  induction layers using List.reverseRecOn with
  | nil => rfl
  | append_singleton layers lowest ih =>
    obtain ⟨hlayers, hlowest⟩ := List.forall_mem_append.mp h
    obtain ⟨hnames, -⟩ := List.forall_mem_append.mp hnamed
    rw [stack_append_singleton, names_overlay (hlowest lowest (by simp)) (named_stack.mpr hnames),
      ih hlayers hnames, eraseDups_append_eraseDups, List.reverse_append]
    rfl

/-! ## Sections -/

/-- The entries of a map; none if there is none. -/
def entriesOf : Option Value → List (Value × Value)
  | some (.map entries) => entries
  | _ => []

@[simp] theorem entriesOf_none : entriesOf none = [] := rfl

/-- The entries of the map that the layer holds under a name. -/
def sectionOf (layer : List (Value × Value)) (name : String) : List (Value × Value) :=
  entriesOf (find? layer (.text name))

/-- If the layer holds the name at all, it has a map there. -/
def Sectioned (layer : List (Value × Value)) (name : String) : Prop :=
  ∀ v, find? layer (.text name) = some v → v = .map (sectionOf layer name)

instance (layer : List (Value × Value)) (name : String) : Decidable (Sectioned layer name) :=
  inferInstanceAs (Decidable (∀ v, find? layer (.text name) = some v → _))

/-- A layer with other keys comes behind the lower one as it is. -/
theorem overlay_of_distinct_append (h : Distinct (lower ++ upper)) :
    overlay lower upper = lower ++ upper := by
  induction upper generalizing lower with
  | nil => rw [overlay, List.append_nil]
  | cons e rest ih =>
    obtain ⟨k, v⟩ := e
    have hnone : find? lower k = none := by
      rw [Distinct, keys, List.map_append, List.pairwise_append] at h
      rw [find?_eq_none_iff]
      intro a ha
      rw [sameKey_comm]
      exact h.2.2 a.1 (List.mem_map_of_mem ha) k (by simp)
    have hdistinct : Distinct (lower ++ [(k, v)] ++ rest) := by simpa using h
    rw [overlay, hnone, overlaid_none, put_of_find?_eq_none hnone, ih hdistinct]
    simp

/-- A map over a value is laid over the entries of that value. -/
theorem overlaid_map (h : Distinct upper) (below : Option Value) :
    overlaid below (.map upper) = .map (overlay (entriesOf below) upper) := by
  unfold overlaid
  split
  · rfl
  · next hbelow =>
    have hnil : entriesOf below = [] := by
      unfold entriesOf
      split
      · next entries => exact absurd rfl (hbelow entries)
      · rfl
    have halone : overlay [] upper = [] ++ upper := overlay_of_distinct_append h
    rw [hnil, halone, List.nil_append]

/-- Where the upper layer has a map, it is laid over the map of the lower one. -/
theorem find?_overlay_of_sectioned (h : Distinct upper) (hupper : Sectioned upper name)
    (hdistinct : Distinct (sectionOf upper name)) (lower : List (Value × Value)) :
    find? (overlay lower upper) (.text name) =
      if (find? upper (.text name)).isSome
      then some (.map (overlay (sectionOf lower name) (sectionOf upper name)))
      else find? lower (.text name) := by
  rw [find?_overlay h]
  cases hfind : find? upper (.text name) with
  | none => rfl
  | some v =>
    have hover := overlaid_map hdistinct (find? lower (.text name))
    rw [← hupper v hfind] at hover
    simp only [hover]
    rfl

theorem sectionOf_overlay (h : Distinct upper) (hupper : Sectioned upper name)
    (hdistinct : Distinct (sectionOf upper name)) (lower : List (Value × Value)) :
    sectionOf (overlay lower upper) name
      = overlay (sectionOf lower name) (sectionOf upper name) := by
  rw [sectionOf, find?_overlay_of_sectioned h hupper hdistinct]
  split
  · rfl
  · next hnone =>
    have hnil : sectionOf upper name = [] := by
      rw [sectionOf, Option.not_isSome_iff_eq_none.mp hnone, entriesOf_none]
    rw [hnil, overlay, sectionOf]

theorem sectioned_overlay (h : Distinct upper) (hlower : Sectioned lower name)
    (hupper : Sectioned upper name) (hdistinct : Distinct (sectionOf upper name)) :
    Sectioned (overlay lower upper) name := by
  intro v hv
  have hmap : ∃ entries, v = .map entries := by
    rw [find?_overlay_of_sectioned h hupper hdistinct] at hv
    split at hv
    · exact ⟨_, (Option.some.inj hv).symm⟩
    · exact ⟨_, hlower v hv⟩
  obtain ⟨entries, rfl⟩ := hmap
  rw [sectionOf, hv, entriesOf]

/-- **Sections are laid over each other.** Under a name where every layer has a map if it holds the
name at all, the stack has the stack of these maps. -/
theorem sectionOf_stack (h : ∀ layer ∈ layers, Distinct layer)
    (hsections : ∀ layer ∈ layers, Sectioned layer name)
    (hdistinct : ∀ layer ∈ layers, Distinct (sectionOf layer name)) :
    Sectioned (stack layers) name
      ∧ sectionOf (stack layers) name = stack (layers.map (sectionOf · name)) := by
  induction layers using List.reverseRecOn with
  | nil => exact ⟨nofun, rfl⟩
  | append_singleton layers lowest ih =>
    obtain ⟨hlayers, -⟩ := List.forall_mem_append.mp h
    obtain ⟨hsection, hlowest⟩ := List.forall_mem_append.mp hsections
    obtain ⟨hmaps, -⟩ := List.forall_mem_append.mp hdistinct
    obtain ⟨hsectioned, hstack⟩ := ih hlayers hsection hmaps
    have hd := distinct_stack hlayers
    have hinner : Distinct (sectionOf (stack layers) name) := by
      rw [hstack]
      exact distinct_stack (List.forall_mem_map.mpr hmaps)
    rw [stack_append_singleton, List.map_append, List.map_singleton, stack_append_singleton,
      sectionOf_overlay hd hsectioned hinner, hstack]
    exact ⟨sectioned_overlay hd (hlowest lowest (by simp)) hsectioned hinner, rfl⟩

end FlagLogic.Layer
