import Mathlib.Data.List.Induction
import WebModules.ImportMap.File
import WebModules.Proofs.Json.Document

/-!
What a document holds after a map has been merged into it.
-/

namespace WebModules

namespace Json

/-- What a field holds once a value has been merged into what it held. -/
def mergedInto (old : Option Json) (value : Json) : Json :=
  match old with
  | some old => if old.isContainer then merge old value else value
  | none => value

theorem mergeFields_cons (target : List (String × Json)) (name : String) (value : Json)
    (fields : List (String × Json)) : mergeFields target ((name, value) :: fields) =
      mergeFields (setField name (mergedInto (field? name target) value) target) fields := by
  rw [mergeFields]
  cases field? name target <;> rfl

theorem field?_mergeFields {fields : List (String × Json)} (hn : (fields.map Prod.fst).Nodup)
    (target : List (String × Json)) (name : String) : field? name (mergeFields target fields) =
      match field? name fields with
      | none => field? name target
      | some value => some (mergedInto (field? name target) value) := by
  induction fields generalizing target with
  | nil => rw [mergeFields]; rfl
  | cons field fields ih =>
      obtain ⟨key, value⟩ := field
      rw [List.map_cons, List.nodup_cons] at hn
      rw [mergeFields_cons, ih hn.2, field?_setField]
      by_cases hk : key = name
      · subst hk
        simp [field?, field?_eq_none hn.1]
      · simp [field?, hk]

theorem get?_merge {fields : List (String × Json)} (hn : (fields.map Prod.fst).Nodup) (target : Json)
    (name : String) : (merge target (.object fields)).get? name =
      match field? name fields with
      | none => target.get? name
      | some value => some (mergedInto (target.get? name) value) := by
  cases target with
  | object targetFields =>
      rw [merge]
      exact field?_mergeFields hn targetFields name
  | null | bool | number | string | array =>
      simp only [merge, get?]
      cases field? name fields <;> rfl

theorem get?_mergedInto {fields : List (String × Json)} (hn : (fields.map Prod.fst).Nodup)
    (old : Option Json) (name : String) : (mergedInto old (.object fields)).get? name =
      match field? name fields with
      | none => old.bind (get? name)
      | some value => some (mergedInto (old.bind (get? name)) value) := by
  cases old with
  | none =>
      simp only [mergedInto, get?]
      cases field? name fields <;> rfl
  | some old =>
      by_cases hc : old.isContainer
      · rw [mergedInto, if_pos hc, get?_merge hn]
        rfl
      · have hnone : get? name old = none := by
          cases old with
          | object => exact absurd rfl hc
          | null | bool | number | string | array => rfl
        rw [mergedInto, if_neg hc, Option.bind_some, hnone]
        simp only [get?]
        cases field? name fields <;> rfl

theorem mergedInto_string (old : Option Json) (s : String) : mergedInto old (.string s) = .string s := by
  cases old with
  | none => rfl
  | some old => cases old <;> simp [mergedInto, merge]

/-! Regular documents -/

/-- Fields that are merged into others stay distinct, and each of their values is regular if merging into
it makes something that is. -/
theorem regular_mergeFields {P : Json.Number → Prop} {depth : Nat} {fields : List (String × Json)}
    (hf : ∀ f ∈ fields, Regular P depth f.2 ∧ ∀ old, Regular P depth old → Regular P depth (merge old f.2))
    {target : List (String × Json)} (hn : (target.map Prod.fst).Nodup)
    (ht : ∀ f ∈ target, Regular P depth f.2) : Regular P (depth + 1) (.object (mergeFields target fields)) := by
  induction fields generalizing target with
  | nil =>
      rw [mergeFields]
      exact .object hn ht
  | cons field fields ih =>
      obtain ⟨name, value⟩ := field
      obtain ⟨hvalue, hmerge⟩ := hf (name, value) List.mem_cons_self
      have hmerged : Regular P depth (mergedInto (field? name target) value) := by
        unfold mergedInto
        split
        · rename_i old hold
          split
          · exact hmerge old (ht _ (mem_of_field? hold))
          · exact hvalue
        · exact hvalue
      rw [mergeFields_cons]
      refine ih (fun f hm => hf f (List.mem_cons_of_mem _ hm)) (nodup_setField name _ hn) fun f hm => ?_
      rcases mem_setField hm with rfl | hm
      · exact hmerged
      · exact ht f hm

theorem Regular.merge {P : Json.Number → Prop} {depth : Nat} {target source : Json} (ht : Regular P depth target)
    (hs : Regular P depth source) : Regular P depth (merge target source) := by
  induction hs generalizing target with
  | null => exact .null _
  | bool _ b => exact .bool _ b
  | number _ holds => exact .number _ holds
  | string _ s => exact .string _ s
  | array regular ih =>
      cases ht with
      | array regular' =>
          rw [Json.merge]
          exact .array fun j hj => (List.mem_append.1 hj).elim (regular' j) (regular j)
      | null | bool | number | string | object => simpa only [Json.merge] using .array regular
  | object names regular ih =>
      cases ht with
      | object names' regular' =>
          rw [Json.merge]
          exact regular_mergeFields (fun f hf => ⟨regular f hf, fun old => ih f hf⟩) names' regular'
      | null | bool | number | string | array => simpa only [Json.merge] using .object names regular

theorem Lasting.mono {depth depth' : Nat} {j : Json} (h : Lasting depth j) (hd : depth ≤ depth') :
    Lasting depth' j :=
  lasting_iff.2 ((lasting_iff.1 h).mono hd)

theorem Lasting.merge {depth : Nat} {target source : Json} (ht : Lasting depth target)
    (hs : Lasting depth source) : Lasting depth (merge target source) :=
  lasting_iff.2 ((lasting_iff.1 ht).merge (lasting_iff.1 hs))

end Json

/-! Import maps -/

/-- Whether the map of a module has a name in the scope of a directory. -/
def MappedModule.scopes (m : MappedModule) (directory name : String) : Bool :=
  m.importer.any (fun importer => importer.storage.relativeDir == directory) &&
    m.module.importName == name

namespace ImportMap

/-- The path that a document has for a name in the scope of a directory. -/
def scoped? (document : Json) (directory name : String) : Option String :=
  (((document.get? "scopes").bind (Json.get? directory)).bind (Json.get? name)).bind Json.asString?

/-- The path that a document has for a name in all modules. -/
def global? (document : Json) (name : String) : Option String :=
  ((document.get? "imports").bind (Json.get? name)).bind Json.asString?

/-- The document with a module entered in it. -/
def entered (document : Json) (m : MappedModule) : Json := (fragment m).persistIn document

/-- The fields of the imports that a module has an entry in. -/
def importsFields (m : MappedModule) : List (String × Json) :=
  match m.importer with
  | none => [(m.module.importName, .string m.module.storage.relativePath)]
  | some _ => []

/-- The fields of the scopes that a module has an entry in. -/
def scopesFields (m : MappedModule) : List (String × Json) :=
  match m.importer with
  | none => []
  | some importer => [(importer.storage.relativeDir,
      .object [(m.module.importName, .string m.module.storage.relativePath)])]

theorem importsJson_fragment (m : MappedModule) : importsJson (fragment m).imports = .object (importsFields m) := by
  obtain ⟨module, importer⟩ := m
  cases importer <;> rfl

theorem scopesJson_fragment (m : MappedModule) : scopesJson (fragment m).scopes = .object (scopesFields m) := by
  obtain ⟨module, importer⟩ := m
  cases importer <;> rfl

theorem toJson_fragment (m : MappedModule) : (fragment m).toJson =
    .object [("imports", .object (importsFields m)), ("scopes", .object (scopesFields m))] := by
  rw [toJson, importsJson_fragment, scopesJson_fragment]

/-- The two parts of a map are merged into the fields for them, and the other fields stay. -/
theorem get?_persistIn (m : ImportMap) (document : Json) (name : String) :
    (m.persistIn document).get? name =
      if name = "imports" then some (Json.mergedInto (document.get? name) (importsJson m.imports))
      else if name = "scopes" then some (Json.mergedInto (document.get? name) (scopesJson m.scopes))
      else document.get? name := by
  have hobject : (if document.isObject then document else .object []).get? name = document.get? name := by
    cases document <;> rfl
  rw [persistIn, toJson, Json.get?_merge (by simp), hobject]
  by_cases himports : name = "imports"
  · simp [himports, Json.field?]
  · by_cases hscopes : name = "scopes"
    · simp [hscopes, Json.field?]
    · simp [himports, hscopes, Json.field?, Ne.symm himports, Ne.symm hscopes]

theorem get?_entered (document : Json) (m : MappedModule) (name : String) :
    (entered document m).get? name =
      if name = "imports" then some (Json.mergedInto (document.get? name) (.object (importsFields m)))
      else if name = "scopes" then some (Json.mergedInto (document.get? name) (.object (scopesFields m)))
      else document.get? name := by
  rw [entered, get?_persistIn, importsJson_fragment, scopesJson_fragment]

theorem nodup_importsFields (m : MappedModule) : ((importsFields m).map Prod.fst).Nodup := by
  unfold importsFields
  split <;> simp

theorem nodup_scopesFields (m : MappedModule) : ((scopesFields m).map Prod.fst).Nodup := by
  unfold scopesFields
  split <;> simp

/-- Entering a module sets the path of its name in the scope of its importer, and of no other. -/
theorem scoped?_entered (document : Json) (m : MappedModule) (directory name : String) :
    scoped? (entered document m) directory name =
      if m.scopes directory name then some m.module.storage.relativePath
      else scoped? document directory name := by
  rw [scoped?, get?_entered, if_neg (by decide), if_pos rfl, Option.bind_some,
    Json.get?_mergedInto (nodup_scopesFields m)]
  obtain ⟨module, importer⟩ := m
  cases importer with
  | none => rfl
  | some importer =>
      by_cases hd : importer.storage.relativeDir = directory
      · simp only [scopesFields, Json.field?, hd, if_true, Option.bind_some]
        rw [Json.get?_mergedInto (by simp)]
        by_cases hm : module.importName = name
        · simp [Json.field?, hm, MappedModule.scopes, hd, Json.mergedInto_string, Json.asString?]
        · simp [Json.field?, hm, MappedModule.scopes, scoped?]
      · simp [scopesFields, Json.field?, hd, MappedModule.scopes, scoped?]

/-- Entering a module without an importer sets the path of its name in all modules. -/
theorem global?_entered (document : Json) (m : MappedModule) (name : String) :
    global? (entered document m) name =
      if m.isRoot && m.module.importName == name then some m.module.storage.relativePath
      else global? document name := by
  rw [global?, get?_entered, if_pos rfl, Option.bind_some, Json.get?_mergedInto (nodup_importsFields m)]
  obtain ⟨module, importer⟩ := m
  cases importer with
  | some importer => simp [importsFields, Json.field?, MappedModule.isRoot, global?]
  | none =>
      by_cases hm : module.importName = name
      · simp [importsFields, Json.field?, hm, MappedModule.isRoot, Json.mergedInto_string, Json.asString?]
      · simp [importsFields, Json.field?, hm, MappedModule.isRoot, global?]

/-- Of the modules that are entered for a name in a scope, the last one counts. -/
theorem scoped?_foldl (ms : List MappedModule) (document : Json) (directory name : String) :
    scoped? (ms.foldl entered document) directory name =
      match (ms.filter (·.scopes directory name)).getLast? with
      | some m => some m.module.storage.relativePath
      | none => scoped? document directory name := by
  induction ms using List.reverseRec with
  | nil => rfl
  | append_singleton ms m ih =>
      rw [List.foldl_append, List.foldl_cons, List.foldl_nil, scoped?_entered, List.filter_append]
      by_cases hm : m.scopes directory name
      · simp [hm]
      · simp [hm, ih]

theorem lasting_entered {document : Json} (h : Json.Lasting Json.maxDepth document) (m : MappedModule) :
    Json.Lasting Json.maxDepth (entered document m) := by
  have hobject : Json.Lasting Json.maxDepth (if document.isObject then document else .object []) := by
    split
    · exact h
    · exact .object (by simp) (by simp)
  have himports : Json.Lasting 2 (.object (importsFields m)) := by
    refine .object (nodup_importsFields m) fun f hf => ?_
    unfold importsFields at hf
    split at hf
    · rw [List.mem_singleton.1 hf]
      exact .string _ _
    · cases hf
  have hscopes : Json.Lasting 2 (.object (scopesFields m)) := by
    refine .object (nodup_scopesFields m) fun f hf => ?_
    unfold scopesFields at hf
    split at hf
    · cases hf
    · rw [List.mem_singleton.1 hf]
      exact .object (by simp) (by simp [Json.Lasting.string])
  have hfragment : Json.Lasting 3 (fragment m).toJson := by
    rw [toJson_fragment]
    exact .object (by simp) (by simp [himports, hscopes])
  exact hobject.merge (hfragment.mono (by decide))

end ImportMap

end WebModules
