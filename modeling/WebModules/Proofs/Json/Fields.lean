import WebModules.Json.Value

/-!
The fields of objects.
-/

namespace WebModules.Json

variable {α : Type}

theorem field?_setField (name other : String) (value : α) (fields : List (String × α)) :
    field? other (setField name value fields) = if name = other then some value else field? other fields := by
  induction fields with
  | nil => rfl
  | cons field fields ih =>
      obtain ⟨key, old⟩ := field
      by_cases hk : key = name
      · subst hk
        by_cases ho : key = other <;> simp [setField, field?, ho]
      · by_cases ho : key = other
        · subst ho
          simp [setField, field?, hk, Ne.symm hk]
        · simp [setField, field?, hk, ho, ih]

theorem field?_eq_none {name : String} {fields : List (String × α)} (h : name ∉ fields.map Prod.fst) :
    field? name fields = none := by
  induction fields with
  | nil => rfl
  | cons field fields ih =>
      rw [List.map_cons, List.mem_cons, not_or] at h
      rw [field?, if_neg (Ne.symm h.1), ih h.2]

theorem field?_eq_none_iff {name : String} {fields : List (String × α)} :
    field? name fields = none ↔ name ∉ fields.map Prod.fst := by
  refine ⟨fun h hmem => ?_, field?_eq_none⟩
  induction fields with
  | nil => cases hmem
  | cons field fields ih =>
      rw [field?] at h
      split at h
      · cases h
      · rename_i hne
        exact ih h ((List.mem_cons.1 hmem).resolve_left (Ne.symm hne))

theorem field?_map {β : Type} (change : α → β) (name : String) (fields : List (String × α)) :
    field? name (fields.map fun f => (f.1, change f.2)) = (field? name fields).map change := by
  induction fields with
  | nil => rfl
  | cons field fields ih =>
      rw [List.map_cons, field?, field?, ih]
      split <;> rfl

theorem names_setField (name : String) (value : α) (fields : List (String × α)) :
    (setField name value fields).map Prod.fst =
      if name ∈ fields.map Prod.fst then fields.map Prod.fst else fields.map Prod.fst ++ [name] := by
  induction fields with
  | nil => rfl
  | cons field fields ih =>
      obtain ⟨key, old⟩ := field
      by_cases hk : key = name
      · simp [setField, hk]
      · simp only [setField, hk, if_false, List.map_cons, ih, List.mem_cons, Ne.symm hk, false_or]
        split <;> rfl

theorem nodup_setField (name : String) (value : α) {fields : List (String × α)}
    (h : (fields.map Prod.fst).Nodup) : ((setField name value fields).map Prod.fst).Nodup := by
  rw [names_setField]
  split
  · exact h
  · rename_i hnew
    refine List.nodup_append.2 ⟨h, by simp, fun a ha b hb => ?_⟩
    rw [List.mem_singleton.1 hb]
    exact fun heq => hnew (heq ▸ ha)

theorem mem_setField {name : String} {value : α} {fields : List (String × α)} {f : String × α}
    (h : f ∈ setField name value fields) : f = (name, value) ∨ f ∈ fields := by
  induction fields with
  | nil => simpa [setField] using h
  | cons field fields ih =>
      obtain ⟨key, old⟩ := field
      rw [setField] at h
      split at h
      · rcases List.mem_cons.1 h with h | h
        · exact .inl h
        · exact .inr (List.mem_cons_of_mem _ h)
      · rcases List.mem_cons.1 h with h | h
        · exact .inr (h ▸ List.mem_cons_self)
        · exact (ih h).imp id (List.mem_cons_of_mem _)

theorem mem_of_field? {name : String} {fields : List (String × α)} {value : α}
    (h : field? name fields = some value) : (name, value) ∈ fields := by
  induction fields with
  | nil => cases h
  | cons field fields ih =>
      obtain ⟨key, old⟩ := field
      rw [field?] at h
      split at h
      · rename_i hk
        cases h
        rw [hk]
        exact List.mem_cons_self
      · exact List.mem_cons_of_mem _ (ih h)

theorem setField_of_notMem {name : String} {value : α} {fields : List (String × α)}
    (h : name ∉ fields.map Prod.fst) : setField name value fields = fields ++ [(name, value)] := by
  induction fields with
  | nil => rfl
  | cons field fields ih =>
      obtain ⟨other, old⟩ := field
      rw [List.map_cons, List.mem_cons, not_or] at h
      rw [setField, if_neg (Ne.symm h.1), ih h.2, List.cons_append]

theorem distinctFields_of_nodup {fields : List (String × α)} (h : (fields.map Prod.fst).Nodup) :
    distinctFields fields = fields := by
  have hfold (found rest : List (String × α)) (h : ((found ++ rest).map Prod.fst).Nodup) :
      rest.foldl (fun found f => setField f.1 f.2 found) found = found ++ rest := by
    induction rest generalizing found with
    | nil => simp
    | cons f rest ih =>
        have hnew : f.1 ∉ found.map Prod.fst := by
          rw [List.map_append, List.map_cons, List.nodup_append] at h
          exact fun hf => h.2.2 _ hf _ List.mem_cons_self rfl
        rw [List.foldl_cons, setField_of_notMem hnew, ih _ (by simpa using h), List.append_assoc]
        rfl
  exact hfold [] fields h

/-- All fields but those of one name are the same, in the same positions. -/
def SameBut (name : String) (fields fields' : List (String × α)) : Prop :=
  ∀ (i : Nat) (other : String) (value : α), other ≠ name →
    (fields'[i]? = some (other, value) ↔ fields[i]? = some (other, value))

theorem SameBut.refl (name : String) (fields : List (String × α)) : SameBut name fields fields := fun _ _ _ _ => .rfl

theorem SameBut.trans {name : String} {fields fields' fields'' : List (String × α)} (h : SameBut name fields fields')
    (h' : SameBut name fields' fields'') : SameBut name fields fields'' :=
  fun i other value hne => (h' i other value hne).trans (h i other value hne)

theorem sameBut_setField (name : String) (value : α) (fields : List (String × α)) :
    SameBut name fields (setField name value fields) := by
  intro i other old hne
  induction fields generalizing i with
  | nil => cases i <;> simp [setField, Ne.symm hne]
  | cons field fields ih =>
      obtain ⟨key, kept⟩ := field
      rw [setField]
      split
      · rename_i hkey
        cases i <;> simp [hkey, Ne.symm hne]
      · cases i with
        | zero => rfl
        | succ i => exact ih i

theorem filter_setField {name : String} {p : String × α → Bool} (h : ∀ value, p (name, value) = false) (value : α)
    (fields : List (String × α)) : (setField name value fields).filter p = fields.filter p := by
  induction fields with
  | nil => simp [setField, h]
  | cons field fields ih =>
      obtain ⟨key, old⟩ := field
      rw [setField]
      split
      · rename_i hkey
        simp [hkey, h]
      · simp [List.filter_cons, ih]

theorem mem_names_filter {name other : String} {fields : List (String × α)} :
    other ∈ (fields.filter fun field => field.1 ≠ name).map Prod.fst ↔ other ∈ fields.map Prod.fst ∧ other ≠ name := by
  simp only [List.mem_map, List.mem_filter, decide_eq_true_eq]
  constructor
  · rintro ⟨field, ⟨hmem, hne⟩, rfl⟩
    exact ⟨⟨field, hmem, rfl⟩, hne⟩
  · rintro ⟨⟨field, hmem, rfl⟩, hne⟩
    exact ⟨field, ⟨hmem, hne⟩, rfl⟩

end WebModules.Json
