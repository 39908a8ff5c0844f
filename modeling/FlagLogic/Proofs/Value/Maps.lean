import FlagLogic.Value

/-!
Maps as lists of entries. Writing an entry changes the value under its key and nothing else
(`find?_put`). It keeps the keys apart, and a key that is new goes to the end (`keys_put`).
-/

namespace FlagLogic.Value

variable {entries : List (Value × Value)} {e : Value × Value} {k l v : Value}

/-! ## Finding -/

theorem find?_congr (h : sameKey k l = true) : find? entries k = find? entries l := by
  simp [find?, sameKey_congr h]

theorem find?_cons (e : Value × Value) (entries : List (Value × Value)) (k : Value) :
    find? (e :: entries) k = if sameKey k e.1 then some e.2 else find? entries k := by
  unfold find?
  cases h : sameKey k e.1 <;> simp [h]

theorem find?_append (entries more : List (Value × Value)) (k : Value) :
    find? (entries ++ more) k = (find? entries k).or (find? more k) := by
  simp [find?, Option.map_or]

theorem find?_eq_none_iff : find? entries k = none ↔ ∀ e ∈ entries, sameKey k e.1 = false := by
  simp [find?]

/-- A value that is found stands in an entry with the key. -/
theorem exists_mem_of_find? (h : find? entries k = some v) :
    ∃ e ∈ entries, sameKey k e.1 ∧ e.2 = v := by
  obtain ⟨e, he, rfl⟩ := Option.map_eq_some_iff.mp h
  exact ⟨e, List.mem_of_find?_eq_some he, by simpa using List.find?_some he, rfl⟩

/-! ## Writing -/

/-- Writes a value into an entry with the key, and leaves any other entry as it is. -/
private def rewritten (k v : Value) (e : Value × Value) : Value × Value :=
  if sameKey k e.1 then (e.1, v) else e

private theorem put_eq (entries : List (Value × Value)) (k v : Value) : put entries k v =
    if entries.any (sameKey k ·.1) then entries.map (rewritten k v) else entries ++ [(k, v)] := rfl

private theorem fst_rewritten (k v : Value) (e : Value × Value) : (rewritten k v e).1 = e.1 := by
  unfold rewritten
  split <;> rfl

private theorem find?_rewritten (entries : List (Value × Value)) (k v l : Value) :
    find? (entries.map (rewritten k v)) l =
      if sameKey l k then (find? entries l).map fun _ => v else find? entries l := by
  induction entries with
  | nil => simp [find?]
  | cons e entries ih =>
    rw [List.map_cons, find?_cons, find?_cons, ih, fst_rewritten]
    by_cases hle : sameKey l e.1
    · -- the entry that `l` finds is rewritten exactly if `l` is the key that is written
      have hke : sameKey k e.1 = sameKey l k := by
        rw [sameKey_comm k, sameKey_congr hle k]
      by_cases hlk : sameKey l k <;> simp [hle, hlk, hke, rewritten]
    · simp [hle]

/-- Writing changes the value under the key, and no other value. -/
theorem find?_put (entries : List (Value × Value)) (k v l : Value) :
    find? (put entries k v) l = if sameKey l k then some v else find? entries l := by
  rw [put_eq]
  split
  · next hk =>
    rw [find?_rewritten]
    by_cases hlk : sameKey l k
    · have hsome : find? entries l ≠ none := by
        rw [find?_congr hlk, ne_eq, find?_eq_none_iff]
        simpa using hk
      obtain ⟨w, hw⟩ := Option.ne_none_iff_exists'.mp hsome
      simp [hlk, hw]
    · simp [hlk]
  · next hk =>
    rw [find?_append, find?_cons]
    by_cases hlk : sameKey l k
    · have hnone : find? entries l = none := by
        rw [find?_congr hlk, find?_eq_none_iff]
        simpa using hk
      simp [hlk, hnone]
    · simp [hlk, find?]

theorem put_of_find?_eq_none (h : find? entries k = none) (v : Value) :
    put entries k v = entries ++ [(k, v)] := by
  have hany : ¬entries.any (sameKey k ·.1) := by simpa [find?_eq_none_iff] using h
  rw [put_eq, if_neg hany]

/-! ## Keys -/

/-- The keys, in order. -/
def keys (entries : List (Value × Value)) : List Value := entries.map (·.1)

/-- Writing under a key that is there leaves the keys as they are; a new key goes to the end. -/
theorem keys_put (entries : List (Value × Value)) (k v : Value) : keys (put entries k v) =
    if (keys entries).any (sameKey k) then keys entries else keys entries ++ [k] := by
  have hfst : (·.1) ∘ rewritten k v = (·.1) := funext (fst_rewritten k v)
  have hany : (keys entries).any (sameKey k) = entries.any (sameKey k ·.1) := List.any_map
  rw [put_eq, hany]
  split
  · rw [keys, keys, List.map_map, hfst]
  · simp [keys]

/-- Each key stands once in the map. -/
def Distinct (entries : List (Value × Value)) : Prop :=
  (keys entries).Pairwise fun k l => sameKey k l = false

instance (entries : List (Value × Value)) : Decidable (Distinct entries) :=
  inferInstanceAs (Decidable ((keys entries).Pairwise _))

theorem Distinct.put (h : Distinct entries) (k v : Value) : Distinct (put entries k v) := by
  rw [Distinct, keys_put]
  split
  · exact h
  · next hk =>
    rw [List.pairwise_append]
    refine ⟨h, List.pairwise_singleton .., ?_⟩
    intro l hl m hm
    obtain rfl := List.mem_singleton.mp hm
    refine Bool.eq_false_iff.mpr fun hlk => hk ?_
    exact List.any_eq_true.mpr ⟨l, hl, sameKey_symm hlk⟩

/-- In a map with distinct keys every entry is found under its key. -/
theorem Distinct.find?_of_mem (h : Distinct entries) (he : e ∈ entries) :
    find? entries e.1 = some e.2 := by
  induction entries with
  | nil => cases he
  | cons a entries ih =>
    obtain ⟨ha, hentries⟩ := List.pairwise_cons.mp h
    rw [find?_cons]
    rcases List.mem_cons.mp he with rfl | he
    · simp
    · have hea : ¬sameKey e.1 a.1 := fun hea => by
        simpa [ha e.1 (List.mem_map_of_mem he)] using sameKey_symm hea
      rw [if_neg hea, ih hentries he]

/-! ## Text keys -/

/-- Every key is a text. -/
def Named (entries : List (Value × Value)) : Prop := ∀ k ∈ keys entries, k.isText = true

instance (entries : List (Value × Value)) : Decidable (Named entries) :=
  inferInstanceAs (Decidable (∀ k ∈ keys entries, _))

@[simp] theorem named_nil : Named [] := nofun

theorem isText_iff : k.isText = true ↔ ∃ s, k = text s := by
  cases k <;> simp [isText]

theorem isText_congr (h : sameKey k l = true) : k.isText = l.isText := by
  rw [Bool.eq_iff_iff, isText_iff, isText_iff]
  constructor
  · rintro ⟨s, rfl⟩
    exact ⟨s, sameKey_text_iff.mp h⟩
  · rintro ⟨s, rfl⟩
    exact ⟨s, sameKey_text_iff.mp (sameKey_symm h)⟩

/-- After writing an entry all keys are texts if they were before and the new one is. -/
theorem named_put : Named (put entries k v) ↔ Named entries ∧ k.isText = true := by
  rw [Named, keys_put]
  split
  · next hk =>
    obtain ⟨l, hl, hkl⟩ := List.any_eq_true.mp hk
    exact ⟨fun h => ⟨h, isText_congr hkl ▸ h l hl⟩, And.left⟩
  · rw [List.forall_mem_append, List.forall_mem_singleton, Named]

/-- The text of a key. -/
def text? : Value → Option String
  | text s => some s
  | _ => none

theorem text?_eq_some_iff {s : String} : text? k = some s ↔ k = text s := by
  cases k <;> simp [text?]

/-- The keys that are texts, in order. -/
def names (entries : List (Value × Value)) : List String := (keys entries).filterMap text?

theorem mem_names {s : String} : s ∈ names entries ↔ text s ∈ keys entries := by
  simp [names, text?_eq_some_iff]

theorem names_put (entries : List (Value × Value)) (s : String) (v : Value) :
    names (put entries (text s) v) =
      if s ∈ names entries then names entries else names entries ++ [s] := by
  have hany : (keys entries).any (sameKey (text s)) = true ↔ s ∈ names entries := by
    simp [mem_names]
  rw [names, keys_put]
  simp only [hany]
  split
  · rfl
  · simp [names, text?]

theorem Distinct.nodup_names (h : Distinct entries) : (names entries).Nodup := by
  refine List.Pairwise.filterMap _ ?_ h
  intro k l hkl s hs t ht
  rintro rfl
  rw [text?_eq_some_iff.mp hs, text?_eq_some_iff.mp ht] at hkl
  simp at hkl

end FlagLogic.Value
