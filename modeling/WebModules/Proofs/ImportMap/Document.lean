import Mathlib.Data.List.Induction
import WebModules.ImportMap.File
import WebModules.Proofs.Dictionary
import WebModules.Proofs.Json.Outline

/-!
A map is read from a document as it has been put there, also after the document has been printed, and
the other fields of the document stay.
-/

namespace WebModules.ImportMap

variable {m : ImportMap} {document : Json}

/-! Dictionaries as objects -/

theorem dictionary?_entries {α : Type} {value? : Json → Option α} (json : α → Json)
    (h : ∀ a, value? (json a) = some a) (d : Dictionary α) :
    dictionary? value? (.object (d.entries.map fun e => (e.1, json e.2))) = some d := by
  have hentries (entries : List (String × α)) : (entries.map fun e => (e.1, json e.2)).mapM (fun field => do
      return (field.1, ← value? field.2)) = some entries := by
    induction entries with
    | nil => rfl
    | cons entry entries ih =>
        rw [List.map_cons, List.mapM_cons, ih]
        simp [h]
  rw [dictionary?, hentries]
  simp [Dictionary.ofList_entries]

theorem imports?_importsJson (imports : Imports) : imports? (importsJson imports) = some imports :=
  dictionary?_entries .string (fun _ => rfl) imports

theorem scopes?_scopesJson (scopes : Dictionary Imports) : scopes? (scopesJson scopes) = some scopes :=
  dictionary?_entries importsJson imports?_importsJson scopes

/-! Fields of a document -/

theorem fieldsNamed_cons (name : String) (field : String × Json) (fields : List (String × Json)) :
    fieldsNamed name (field :: fields) =
      if field.1 = name then field.2 :: fieldsNamed name fields else fieldsNamed name fields := by
  by_cases h : field.1 = name <;> simp [fieldsNamed, h]

theorem fieldsNamed_setField_of_ne {name other : String} (h : name ≠ other) (value : Json)
    (fields : List (String × Json)) :
    fieldsNamed other (Json.setField name value fields) = fieldsNamed other fields := by
  induction fields with
  | nil => simp [Json.setField, fieldsNamed, h]
  | cons field fields ih =>
      obtain ⟨key, old⟩ := field
      rw [Json.setField]
      by_cases hk : key = name
      · rw [if_pos hk, fieldsNamed_cons, fieldsNamed_cons, hk, if_neg h, if_neg h]
      · rw [if_neg hk, fieldsNamed_cons, fieldsNamed_cons, ih]

/-- A field that stands at most once in an object stands there once after it has been set. -/
theorem fieldsNamed_setField_self {name : String} {fields : List (String × Json)}
    (h : (fieldsNamed name fields).length ≤ 1) (value : Json) :
    fieldsNamed name (Json.setField name value fields) = [value] := by
  induction fields with
  | nil => simp [Json.setField, fieldsNamed]
  | cons field fields ih =>
      obtain ⟨key, old⟩ := field
      rw [fieldsNamed_cons] at h
      rw [Json.setField]
      by_cases hk : key = name
      · rw [if_pos hk, List.length_cons] at h
        have hnone : fieldsNamed name fields = [] := List.length_eq_zero_iff.1 (by omega)
        rw [if_pos hk, fieldsNamed_cons, if_pos rfl, hnone]
      · rw [if_neg hk] at h
        rw [if_neg hk, fieldsNamed_cons, if_neg hk, ih h]

theorem length_le_of_part? {α : Type} {value? : Json → Option (Dictionary α)} {js : List Json}
    {d : Dictionary α} (h : part? value? js = some d) : js.length ≤ 1 := by
  rw [part?.eq_def] at h
  split at h
  · exact Nat.zero_le 1
  · exact Nat.le_refl 1
  · cases h

/-- A document that a map has been put in has the map in one field for each of its parts. -/
theorem replaceIn_eq_object (h : ofJson? document = some m) (left : ImportMap) :
    ∃ fields, left.replaceIn document = .object fields ∧
      fieldsNamed "imports" fields = [importsJson left.imports] ∧
      fieldsNamed "scopes" fields = [scopesJson left.scopes] := by
  cases document with
  | object fields =>
      cases himports : part? imports? (fieldsNamed "imports" fields) with
      | none => simp [ofJson?, himports] at h
      | some imports =>
          cases hscopes : part? scopes? (fieldsNamed "scopes" fields) with
          | none => simp [ofJson?, himports, hscopes] at h
          | some scopes =>
              have hone := fieldsNamed_setField_self (length_le_of_part? himports) (importsJson left.imports)
              have hother := fieldsNamed_setField_of_ne (show "imports" ≠ "scopes" by decide)
                (importsJson left.imports) fields
              have htwo := fieldsNamed_setField_self (hother ▸ length_le_of_part? hscopes) (scopesJson left.scopes)
              have hboth := fieldsNamed_setField_of_ne (show "scopes" ≠ "imports" by decide)
                (scopesJson left.scopes) (Json.setField "imports" (importsJson left.imports) fields)
              exact ⟨_, rfl, hboth.trans hone, htwo⟩
  | null | bool | number | string | array =>
      exact ⟨_, rfl, by simp [fieldsNamed], by simp [fieldsNamed]⟩

theorem ofJson?_of_fieldsNamed {fields : List (String × Json)}
    (hi : fieldsNamed "imports" fields = [importsJson m.imports])
    (hs : fieldsNamed "scopes" fields = [scopesJson m.scopes]) : ofJson? (.object fields) = some m := by
  rw [ofJson?, hi, hs]
  simp [part?, imports?_importsJson, scopes?_scopesJson]

theorem ofJson?_replaceIn (h : ofJson? document = some m) (left : ImportMap) :
    ofJson? (left.replaceIn document) = some left := by
  obtain ⟨fields, hfields, hi, hs⟩ := replaceIn_eq_object h left
  rw [hfields, ofJson?_of_fieldsNamed hi hs]

theorem get?_replaceIn {field : String} (hi : field ≠ "imports") (hs : field ≠ "scopes") (left : ImportMap)
    (document : Json) : (left.replaceIn document).get? field = document.get? field := by
  cases document with
  | object fields =>
      rw [replaceIn, Json.get?, Json.field?_setField, if_neg (Ne.symm hs), Json.field?_setField,
        if_neg (Ne.symm hi)]
      rfl
  | null | bool | number | string | array =>
      simp [replaceIn, toJson, Json.get?, Json.field?, Ne.symm hi, Ne.symm hs]

/-! Documents that are printed -/

/-- A document that only itself has the outline of: one without numbers and truth values. -/
def Exact (j : Json) : Prop := ∀ j' : Json, j'.outline = j.outline → j' = j

theorem exact_string (s : String) : Exact (.string s) := by
  intro j h
  cases j with
  | string s' => simpa [Json.outline] using h
  | null | bool | number | array | object => simp [Json.outline] at h

theorem object_of_outline {j : Json} {fields : List (String × Json)}
    (h : j.outline = (Json.object fields).outline) :
    ∃ fields', j = .object fields' ∧ Json.outlineFields fields' = Json.outlineFields fields := by
  cases j with
  | object fields' => exact ⟨fields', rfl, by simpa [Json.outline] using h⟩
  | null | bool | number | string | array => simp [Json.outline] at h

theorem exact_object {fields : List (String × Json)} (h : ∀ f ∈ fields, Exact f.2) : Exact (.object fields) := by
  intro j hj
  obtain ⟨fields', rfl, hfields⟩ := object_of_outline hj
  clear hj
  induction fields generalizing fields' with
  | nil =>
      cases fields' with
      | nil => rfl
      | cons field fields' => simp [Json.outlineFields] at hfields
  | cons field fields ih =>
      cases fields' with
      | nil => simp [Json.outlineFields] at hfields
      | cons field' fields' =>
          simp only [Json.outlineFields, List.cons.injEq, Prod.mk.injEq] at hfields
          obtain ⟨⟨hname, hvalue⟩, hrest⟩ := hfields
          have hfield : field' = field := Prod.ext hname (h field List.mem_cons_self _ hvalue)
          have hothers := ih (fun f hf => h f (List.mem_cons_of_mem _ hf)) fields' hrest
          rw [hfield, Json.object.inj hothers]

theorem exact_importsJson (imports : Imports) : Exact (importsJson imports) := by
  apply exact_object
  intro f hf
  obtain ⟨e, -, rfl⟩ := List.mem_map.1 hf
  exact exact_string e.2

theorem exact_scopesJson (scopes : Dictionary Imports) : Exact (scopesJson scopes) := by
  apply exact_object
  intro f hf
  obtain ⟨e, -, rfl⟩ := List.mem_map.1 hf
  exact exact_importsJson e.2

section

variable {P : Json.Number → Prop}

theorem regular_entries {α : Type} {depth : Nat} (json : α → Json) (h : ∀ a, Json.Regular P depth (json a))
    (d : Dictionary α) : Json.Regular P (depth + 1) (.object (d.entries.map fun e => (e.1, json e.2))) := by
  refine .object ?_ ?_
  · rw [List.map_map]
    exact d.nodup_keys
  · intro f hf
    obtain ⟨e, -, rfl⟩ := List.mem_map.1 hf
    exact h e.2

theorem regular_importsJson (imports : Imports) : Json.Regular P 1 (importsJson imports) :=
  regular_entries .string (Json.Regular.string 0) imports

theorem regular_scopesJson (scopes : Dictionary Imports) : Json.Regular P 2 (scopesJson scopes) :=
  regular_entries importsJson regular_importsJson scopes

theorem regular_toJson (m : ImportMap) : Json.Regular P 3 m.toJson := by
  refine .object (by simp) ?_
  simp [(regular_importsJson m.imports).mono (show 1 ≤ 2 by decide), regular_scopesJson m.scopes]

end

theorem fieldsNamed_map (name : String) (change : Json → Json) (fields : List (String × Json)) :
    fieldsNamed name (fields.map fun f => (f.1, change f.2)) = (fieldsNamed name fields).map change := by
  induction fields with
  | nil => rfl
  | cons field fields ih =>
      rw [List.map_cons, fieldsNamed_cons, fieldsNamed_cons, ih]
      split <;> rfl

/-- Of the fields of a name the last one stays when fields are made distinct. -/
theorem fieldsNamed_distinctFields (name : String) (fields : List (String × Json)) :
    fieldsNamed name (Json.distinctFields fields) = (fieldsNamed name fields).getLast?.toList := by
  induction fields using List.reverseRec with
  | nil => rfl
  | append_singleton fields field ih =>
      have hstep : Json.distinctFields (fields ++ [field]) =
          Json.setField field.1 field.2 (Json.distinctFields fields) := by
        rw [Json.distinctFields, List.foldl_append]
        rfl
      have happend : fieldsNamed name (fields ++ [field]) = fieldsNamed name fields ++ fieldsNamed name [field] := by
        simp [fieldsNamed]
      rw [hstep, happend, fieldsNamed_cons]
      by_cases h : field.1 = name
      · have hone : (fieldsNamed name (Json.distinctFields fields)).length ≤ 1 := by
          rw [ih]
          cases (fieldsNamed name fields).getLast? <;> simp
        rw [if_pos h, h, fieldsNamed_setField_self hone]
        simp [fieldsNamed]
      · rw [if_neg h, fieldsNamed_setField_of_ne h, ih]
        simp [fieldsNamed]

theorem fieldsNamed_reread {name : String} {fields fields' : List (String × Json)} {value : Json}
    (ho : Json.outlineFields fields' = Json.outlineFields fields) (hv : fieldsNamed name fields = [value])
    (he : Exact value) (hd : value.distinct = value) :
    fieldsNamed name (Json.distinctFields (Json.distinctValues fields')) = [value] := by
  rw [Json.outlineFields_eq, Json.outlineFields_eq] at ho
  have hnamed := congrArg (fieldsNamed name) ho
  rw [fieldsNamed_map, fieldsNamed_map, hv, List.map_singleton, List.map_eq_singleton_iff] at hnamed
  obtain ⟨found, hfound, houtline⟩ := hnamed
  obtain rfl := he found houtline
  rw [fieldsNamed_distinctFields, Json.distinctValues_eq, fieldsNamed_map, hfound]
  simp [hd]

/-- If a document that a map has been put in can be read after it has been printed, it has that map. -/
theorem ofJson?_of_read_pretty {left : ImportMap} {document' : Json} (h : ofJson? document = some m)
    (hr : Json.read ((left.replaceIn document).pretty ++ "\n") = .ok document') :
    ofJson? document' = some left := by
  obtain ⟨whole, hparse, rfl⟩ := Json.read_eq_ok hr
  obtain ⟨fields, hfields, hi, hs⟩ := replaceIn_eq_object h left
  obtain ⟨fields', rfl, houtline⟩ := object_of_outline (hfields ▸ Json.outline_of_parse_pretty hparse)
  rw [Json.distinct]
  apply ofJson?_of_fieldsNamed
  · exact fieldsNamed_reread houtline hi (exact_importsJson _) (regular_importsJson (P := fun _ => True) _).distinct_eq
  · exact fieldsNamed_reread houtline hs (exact_scopesJson _) (regular_scopesJson (P := fun _ => True) _).distinct_eq

end WebModules.ImportMap
