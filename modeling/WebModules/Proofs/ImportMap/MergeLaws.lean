import WebModules.Proofs.ImportMap.Merge

/-!
When merging is associative and idempotent.  Neither holds of all documents: a text in place of an object
forgets what the object held, and an array that is merged twice is there twice.
-/

namespace WebModules.Json

/-- Documents of objects and texts which have texts at the same places, where both have something. -/
inductive Alike : Json → Json → Prop
  | string (s s' : String) : Alike (.string s) (.string s')
  | object {fields fields' : List (String × Json)} (names : (fields.map Prod.fst).Nodup)
      (names' : (fields'.map Prod.fst).Nodup)
      (alike : ∀ name value value', field? name fields = some value → field? name fields' = some value' →
        Alike value value') : Alike (.object fields) (.object fields')

/-! Fields -/

theorem setField_setField (name : String) (value value' : Json) (fields : List (String × Json)) :
    setField name value (setField name value' fields) = setField name value fields := by
  induction fields with
  | nil => simp [setField]
  | cons field fields ih =>
      obtain ⟨key, old⟩ := field
      by_cases hk : key = name <;> simp [setField, hk, ih]

/-- A field that is there is set in its place, whatever else is set. -/
theorem setField_comm {name other : String} (hne : name ≠ other) {fields : List (String × Json)}
    (h : name ∈ fields.map Prod.fst) (value value' : Json) :
    setField name value (setField other value' fields) = setField other value' (setField name value fields) := by
  induction fields with
  | nil => cases h
  | cons field fields ih =>
      obtain ⟨key, old⟩ := field
      by_cases hk : key = name
      · subst hk
        simp [setField, hne]
      · have hrest : name ∈ fields.map Prod.fst := (List.mem_cons.1 h).resolve_left (Ne.symm hk)
        by_cases ho : key = other
        · subst ho
          simp [setField, hk]
        · simp [setField, hk, ho, ih hrest]

theorem setField_of_field? {name : String} {value : Json} {fields : List (String × Json)}
    (h : field? name fields = some value) : setField name value fields = fields := by
  induction fields with
  | nil => cases h
  | cons field fields ih =>
      obtain ⟨key, old⟩ := field
      rw [field?] at h
      by_cases hk : key = name
      · rw [if_pos hk] at h
        cases h
        rw [setField, if_pos hk, hk]
      · rw [if_neg hk] at h
        rw [setField, if_neg hk, ih h]

theorem mem_names_setField {name other : String} {value : Json} {fields : List (String × Json)} :
    other ∈ (setField name value fields).map Prod.fst ↔ other = name ∨ other ∈ fields.map Prod.fst := by
  rw [names_setField]
  split
  · rename_i h
    exact ⟨.inr, fun ho => ho.elim (fun heq => heq ▸ h) id⟩
  · rw [List.mem_append, List.mem_singleton, or_comm]

/-- A field that is there and is not merged into can be set before or after the merging. -/
theorem mergeFields_setField {name : String} {target fields : List (String × Json)}
    (ht : name ∈ target.map Prod.fst) (hf : name ∉ fields.map Prod.fst) (value : Json) :
    mergeFields (setField name value target) fields = setField name value (mergeFields target fields) := by
  induction fields generalizing target with
  | nil => rw [mergeFields, mergeFields]
  | cons field fields ih =>
      obtain ⟨key, new⟩ := field
      rw [List.map_cons, List.mem_cons, not_or] at hf
      rw [mergeFields_cons, mergeFields_cons, field?_setField, if_neg hf.1,
        ← setField_comm hf.1 ht, ih (mem_names_setField.2 (.inr ht)) hf.2]

/-- Setting a field of what is merged sets what the merging has made of it. -/
theorem mergeFields_of_setField (name : String) (value : Json) {fields : List (String × Json)}
    (hn : (fields.map Prod.fst).Nodup) (target : List (String × Json)) :
    mergeFields target (setField name value fields) =
      setField name (mergedInto (field? name target) value) (mergeFields target fields) := by
  induction fields generalizing target with
  | nil => rw [setField, mergeFields_cons, mergeFields, mergeFields]
  | cons field fields ih =>
      obtain ⟨key, old⟩ := field
      rw [List.map_cons, List.nodup_cons] at hn
      by_cases hk : key = name
      · subst hk
        rw [setField, if_pos rfl, mergeFields_cons, mergeFields_cons,
          ← mergeFields_setField (mem_names_setField.2 (.inl rfl)) hn.1, setField_setField]
      · rw [setField, if_neg hk, mergeFields_cons, mergeFields_cons, ih hn.2, field?_setField, if_neg hk]

theorem nodup_mergeFields {target : List (String × Json)} (hn : (target.map Prod.fst).Nodup)
    (fields : List (String × Json)) : ((mergeFields target fields).map Prod.fst).Nodup := by
  induction fields generalizing target with
  | nil =>
      rw [mergeFields]
      exact hn
  | cons field fields ih =>
      obtain ⟨key, value⟩ := field
      rw [mergeFields_cons]
      exact ih (nodup_setField key _ hn)

theorem mergedInto_object (fields fields' : List (String × Json)) :
    mergedInto (some (.object fields)) (.object fields') = .object (mergeFields fields fields') := by
  have hmerge : mergedInto (some (.object fields)) (.object fields') = merge (.object fields) (.object fields') := rfl
  rw [hmerge, merge]

/-! Laws -/

/-- A value that is merged twice in a row, if both times it is merged alike. -/
theorem mergedInto_mergedInto {value value' : Json} (h : Alike value value')
    (hmerge : ∀ old : Json, merge (merge old value) value' = merge old (merge value value')) (old : Option Json) :
    mergedInto (some (mergedInto old value)) value' = mergedInto old (mergedInto (some value) value') := by
  cases h with
  | string s s' => simp only [mergedInto_string]
  | @object fields fields' names names' alike =>
      have hinner : mergedInto (some (.object fields)) (.object fields') = merge (.object fields) (.object fields') := rfl
      rw [hinner]
      cases old with
      | none => rfl
      | some old =>
          cases hc : old.isContainer with
          | false =>
              have hplain (value : Json) : mergedInto (some old) value = value := if_neg (by simp [hc])
              rw [hplain, hplain, hinner]
          | true =>
              have hinto (value : Json) : mergedInto (some old) value = merge old value := if_pos hc
              have hobject : (merge old (.object fields)).isContainer = true := by
                cases old <;> simp [merge, isContainer, isObject]
              rw [hinto, hinto, ← hmerge]
              exact if_pos hobject

theorem mergeFields_assoc {fields fields' : List (String × Json)} (hn : (fields.map Prod.fst).Nodup)
    (hn' : (fields'.map Prod.fst).Nodup)
    (h : ∀ name value value', field? name fields = some value → field? name fields' = some value' →
      ∀ old, mergedInto (some (mergedInto old value)) value' = mergedInto old (mergedInto (some value) value'))
    (target : List (String × Json)) :
    mergeFields (mergeFields target fields) fields' = mergeFields target (mergeFields fields fields') := by
  induction fields' generalizing fields with
  | nil => rw [mergeFields, mergeFields]
  | cons field fields' ih =>
      obtain ⟨key, value'⟩ := field
      rw [List.map_cons, List.nodup_cons] at hn'
      have hvalue : mergedInto (field? key (mergeFields target fields)) value' =
          mergedInto (field? key target) (mergedInto (field? key fields) value') := by
        rw [field?_mergeFields hn]
        cases hk : field? key fields with
        | none => rfl
        | some value => exact h key value value' hk (by simp [field?]) _
      rw [mergeFields_cons, mergeFields_cons, ← ih (nodup_setField key _ hn) hn'.2, mergeFields_of_setField _ _ hn, hvalue]
      intro name value next hname hnext
      have hne : key ≠ name := by
        rintro rfl
        rw [field?_eq_none hn'.1] at hnext
        cases hnext
      rw [field?_setField, if_neg hne] at hname
      exact h name value next hname (by simpa [field?, hne] using hnext)

/-- Documents that are alike can be merged before they are merged into any document. -/
theorem Alike.merge_assoc {middle source : Json} (h : Alike middle source) (target : Json) :
    merge (merge target middle) source = merge target (merge middle source) := by
  induction h generalizing target with
  | string s s' => simp [merge]
  | @object fields fields' names names' alike ih =>
      cases target with
      | object targetFields =>
          simp only [merge]
          rw [mergeFields_assoc names names' fun name value value' hv hv' =>
            mergedInto_mergedInto (alike name value value' hv hv') (ih name value value' hv hv')]
      | null | bool | number | string | array => simp [merge]

theorem mergeFields_self {target fields : List (String × Json)}
    (h : ∀ f ∈ fields, ∃ old, field? f.1 target = some old ∧ mergedInto (some old) f.2 = old) :
    mergeFields target fields = target := by
  induction fields with
  | nil => rw [mergeFields]
  | cons field fields ih =>
      obtain ⟨name, value⟩ := field
      obtain ⟨old, hold, hmerged⟩ := h (name, value) List.mem_cons_self
      rw [mergeFields_cons, hold, hmerged, setField_of_field? hold]
      exact ih fun f hf => h f (List.mem_cons_of_mem _ hf)

theorem field?_of_mem {fields : List (String × Json)} (hn : (fields.map Prod.fst).Nodup) {f : String × Json}
    (h : f ∈ fields) : field? f.1 fields = some f.2 := by
  induction fields with
  | nil => cases h
  | cons field fields ih =>
      obtain ⟨key, value⟩ := field
      rw [List.map_cons, List.nodup_cons] at hn
      rcases List.mem_cons.1 h with rfl | h
      · simp [field?]
      · have hmem : f.1 ∈ fields.map Prod.fst := List.mem_map_of_mem h
        have hne : key ≠ f.1 := fun heq => hn.1 (heq ▸ hmem)
        rw [field?, if_neg hne, ih hn.2 h]

/-- A document that is merged into itself stays as it is, if it is alike itself. -/
theorem Alike.merge_self {j : Json} (h : Alike j j) : merge j j = j := by
  have hsame {j j' : Json} (h : Alike j j') : j = j' → merge j j' = j := by
    induction h with
    | string s s' =>
        intro heq
        simp [merge, heq]
    | @object fields fields' names names' alike ih =>
        intro heq
        cases heq
        rw [merge, mergeFields_self]
        intro f hf
        have hfield := field?_of_mem names hf
        refine ⟨f.2, hfield, ?_⟩
        unfold mergedInto
        dsimp only
        split
        · exact ih f.1 f.2 f.2 hfield hfield rfl
        · rfl
  exact hsame h rfl

end WebModules.Json
