import WebModules.Proofs.ImportMap.Document
import WebModules.Proofs.ImportMap.MergeLaws

/-!
Merging a map into a document overrides the map that the document holds, entry by entry.
-/

namespace WebModules

namespace Dictionary

variable {α : Type} {join : α → α → α} {d e e' : Dictionary α}

theorem mergeWith_empty (join : α → α → α) (e : Dictionary α) : empty.mergeWith join e = e := by
  refine ext_get? fun name => ?_
  rw [get?_mergeWith]
  cases e.get? name <;> rfl

theorem mergeWith_swap (h : ∀ name a b, e.get? name = some a → e'.get? name = some b → join a b = join b a) :
    e.mergeWith join e' = e'.mergeWith join e := by
  refine ext_get? fun name => ?_
  rw [get?_mergeWith, get?_mergeWith]
  cases ha : e.get? name with
  | none => cases e'.get? name <;> rfl
  | some a =>
      cases hb : e'.get? name with
      | none => rfl
      | some b => simp [h name a b ha hb]

theorem mergeWith_comm (h : ∀ name a b, e.get? name = some a → e'.get? name = some b →
      join a b = join b a ∧ ∀ old, join (join old a) b = join (join old b) a) :
    (d.mergeWith join e).mergeWith join e' = (d.mergeWith join e').mergeWith join e := by
  refine ext_get? fun name => ?_
  simp only [get?_mergeWith]
  cases ha : e.get? name with
  | none => cases e'.get? name <;> rfl
  | some a =>
      cases hb : e'.get? name with
      | none => rfl
      | some b =>
          obtain ⟨hnew, hold⟩ := h name a b ha hb
          cases d.get? name with
          | none => simp [hnew]
          | some old => simp [hold old]

end Dictionary

namespace ImportMap

/-- A map with the entries of another one, which come before its own. -/
def override (m f : ImportMap) : ImportMap :=
  ⟨m.imports.mergeWith (fun _ path => path) f.imports,
    m.scopes.mergeWith (Dictionary.mergeWith fun _ path => path) f.scopes⟩

/-- The entries of the other map come first, and no entry is lost. -/
theorem imports_override (m f : ImportMap) (name : String) :
    (m.override f).imports.get? name = (f.imports.get? name).or (m.imports.get? name) := by
  rw [override, Dictionary.get?_mergeWith]
  cases f.imports.get? name with
  | none => rfl
  | some path => cases m.imports.get? name <;> rfl

theorem scopes_override (m f : ImportMap) (directory name : String) :
    ((m.override f).scopes.get? directory).bind (·.get? name) =
      ((f.scopes.get? directory).bind (·.get? name)).or ((m.scopes.get? directory).bind (·.get? name)) := by
  rw [override, Dictionary.get?_mergeWith]
  cases f.scopes.get? directory with
  | none => rfl
  | some scope =>
      cases m.scopes.get? directory with
      | none => simp
      | some old =>
          simp only [Option.map_some, Option.getD_some, Option.bind_some, Dictionary.get?_mergeWith]
          cases scope.get? name with
          | none => rfl
          | some path => cases old.get? name <;> rfl

theorem mem_scopes_override (m f : ImportMap) (directory : String) :
    ((m.override f).scopes.get? directory).isSome ↔
      (f.scopes.get? directory).isSome ∨ (m.scopes.get? directory).isSome := by
  rw [override, Dictionary.get?_mergeWith]
  cases f.scopes.get? directory <;> simp

/-- The entries that both maps have lead to the same paths. -/
structure Agree (f g : ImportMap) : Prop where
  imports : ∀ name p q, f.imports.get? name = some p → g.imports.get? name = some q → p = q
  scopes : ∀ directory s s', f.scopes.get? directory = some s → g.scopes.get? directory = some s' →
    ∀ name p q, s.get? name = some p → s'.get? name = some q → p = q

theorem override_comm {f g : ImportMap} (h : Agree f g) (m : ImportMap) :
    (m.override f).override g = (m.override g).override f := by
  have himports : ((m.override f).override g).imports = ((m.override g).override f).imports := by
    change (m.imports.mergeWith (fun _ path => path) f.imports).mergeWith (fun _ path => path) g.imports = _
    refine Dictionary.mergeWith_comm fun name p q hp hq => ?_
    exact ⟨(h.imports name p q hp hq).symm, fun _ => (h.imports name p q hp hq).symm⟩
  have hscopes : ((m.override f).override g).scopes = ((m.override g).override f).scopes := by
    change (m.scopes.mergeWith (Dictionary.mergeWith fun _ path => path) f.scopes).mergeWith
      (Dictionary.mergeWith fun _ path => path) g.scopes = _
    refine Dictionary.mergeWith_comm fun directory s s' hs hs' => ⟨?_, fun old => ?_⟩
    · exact Dictionary.mergeWith_swap fun name p q hp hq => (h.scopes directory s s' hs hs' name p q hp hq).symm
    · refine Dictionary.mergeWith_comm fun name p q hp hq => ?_
      have heq := h.scopes directory s s' hs hs' name p q hp hq
      exact ⟨heq.symm, fun _ => heq.symm⟩
  exact ImportMap.mk.injEq .. ▸ ⟨himports, hscopes⟩

/-! Dictionaries that are merged as objects -/

section

variable {α : Type} {value? : Json → Option α} {json : α → Json} {join : α → α → α}
  {fields : List (String × Json)} {d : Dictionary α}

theorem field?_eq_lookup {β : Type} (name : String) (fields : List (String × β)) :
    Json.field? name fields = fields.lookup name := by
  induction fields with
  | nil => rfl
  | cons field fields ih =>
      obtain ⟨key, value⟩ := field
      rw [Json.field?, Dictionary.lookup_entry_cons, ih]

theorem field?_entries (json : α → Json) (d : Dictionary α) (name : String) :
    Json.field? name (d.entries.map fun e => (e.1, json e.2)) = (d.get? name).map json := by
  rw [Json.field?_map, field?_eq_lookup, Dictionary.get?]

def fieldValue? (value? : Json → Option α) (field : String × Json) : Option (String × α) :=
  (value? field.2).map (field.1, ·)

theorem dictionary?_object (value? : Json → Option α) (fields : List (String × Json)) :
    dictionary? value? (.object fields) = (fields.mapM (fieldValue? value?)).map .ofList := by
  have hstep : (fun field : String × Json => do return (field.1, ← value? field.2)) = fieldValue? value? := by
    funext field
    cases h : value? field.2 <;> simp [fieldValue?, h]
  rw [dictionary?, hstep]
  cases fields.mapM (fieldValue? value?) <;> rfl

/-- The fields of an object that can be read, each with what is read of it. -/
theorem mapM_fieldValue? {entries : List (String × α)} (h : fields.mapM (fieldValue? value?) = some entries) :
    entries.map Prod.fst = fields.map Prod.fst ∧ (∀ f ∈ fields, ∃ a, value? f.2 = some a) ∧
      ∀ name, (Json.field? name fields).map value? = (entries.lookup name).map some := by
  induction fields generalizing entries with
  | nil =>
      cases h
      exact ⟨rfl, fun _ => nofun, fun _ => rfl⟩
  | cons field fields ih =>
      obtain ⟨key, j⟩ := field
      rw [List.mapM_cons] at h
      obtain ⟨entry, hentry, hafter⟩ := Option.bind_eq_some_iff.1 h
      obtain ⟨rest, hrest, hentries⟩ := Option.bind_eq_some_iff.1 hafter
      cases hentries
      obtain ⟨a, ha, rfl⟩ := Option.map_eq_some_iff.1 hentry
      obtain ⟨hnames, hread, hvalues⟩ := ih hrest
      refine ⟨by simp [hnames], List.forall_mem_cons.2 ⟨⟨a, ha⟩, hread⟩, fun name => ?_⟩
      rw [Json.field?, Dictionary.lookup_entry_cons]
      split
      · exact congrArg some ha
      · exact hvalues name

theorem exists_mapM_fieldValue? (h : ∀ f ∈ fields, ∃ a, value? f.2 = some a) :
    ∃ entries, fields.mapM (fieldValue? value?) = some entries := by
  induction fields with
  | nil => exact ⟨[], rfl⟩
  | cons field fields ih =>
      obtain ⟨a, ha⟩ := h field List.mem_cons_self
      obtain ⟨rest, hrest⟩ := ih fun f hf => h f (List.mem_cons_of_mem _ hf)
      exact ⟨(field.1, a) :: rest, by simp [List.mapM_cons, fieldValue?, ha, hrest]⟩

theorem dictionary?_eq_some_iff (hn : (fields.map Prod.fst).Nodup) : dictionary? value? (.object fields) = some d ↔
    ∀ name, (Json.field? name fields).map value? = (d.get? name).map some := by
  have hread {entries : List (String × α)} (h : fields.mapM (fieldValue? value?) = some entries) (name : String) :
      (Json.field? name fields).map value? = ((Dictionary.ofList entries).get? name).map some := by
    obtain ⟨hnames, -, hvalues⟩ := mapM_fieldValue? h
    rw [hvalues, Dictionary.get?_ofList (hnames ▸ hn)]
  rw [dictionary?_object, Option.map_eq_some_iff]
  constructor
  · rintro ⟨entries, hm, rfl⟩
    exact hread hm
  · intro h
    obtain ⟨entries, hm⟩ : ∃ entries, fields.mapM (fieldValue? value?) = some entries := by
      refine exists_mapM_fieldValue? fun f hf => ?_
      have hfield := h f.1
      rw [Json.field?_of_mem hn hf, Option.map_some] at hfield
      obtain ⟨a, -, ha⟩ := Option.map_eq_some_iff.1 hfield.symm
      exact ⟨a, ha.symm⟩
    refine ⟨entries, hm, Dictionary.ext_get? fun name => ?_⟩
    exact Option.map_injective (Option.some_injective α) ((hread hm name).symm.trans (h name))

/-- Only one value has the outline of an object that a dictionary is read from, if that holds of the values
of the object. -/
theorem exact_of_dictionary? (hexact : ∀ j a, value? j = some a → Exact j) {j : Json}
    (h : dictionary? value? j = some d) : Exact j := by
  cases j with
  | object fields =>
      rw [dictionary?_object, Option.map_eq_some_iff] at h
      obtain ⟨entries, hm, -⟩ := h
      refine exact_object fun f hf => ?_
      obtain ⟨a, ha⟩ := (mapM_fieldValue? hm).2.1 f hf
      exact hexact f.2 a ha
  | null | bool | number | string | array => cases h

theorem exact_of_imports? {j : Json} {imports : Imports} (h : imports? j = some imports) : Exact j := by
  refine exact_of_dictionary? (fun j a ha => ?_) h
  cases j with
  | string s => exact exact_string s
  | null | bool | number | array | object => cases ha

theorem exact_of_scopes? {j : Json} {scopes : Dictionary Imports} (h : scopes? j = some scopes) : Exact j :=
  exact_of_dictionary? (fun _ _ => exact_of_imports?) h

variable {P : Json.Number → Prop}

/-- What is read of an object into which a dictionary is merged, if its values are read as they are
joined. -/
theorem dictionary?_mergedInto (value? : Json → Option α) (json : α → Json) (hjson : ∀ a, value? (json a) = some a)
    (hjoin : ∀ depth j a b, Json.Regular P depth j → value? j = some a →
      value? (Json.mergedInto (some j) (json b)) = some (join a b))
    {depth : Nat} {j : Json} (hr : Json.Regular P depth j) (h : dictionary? value? j = some d) (e : Dictionary α) :
    dictionary? value? (Json.mergedInto (some j) (.object (e.entries.map fun e => (e.1, json e.2)))) =
      some (d.mergeWith join e) := by
  cases hr with
  | @object depth fields names regular =>
      have hnames : ((e.entries.map fun e => (e.1, json e.2)).map Prod.fst).Nodup := by
        rw [List.map_map]
        exact e.nodup_keys
      rw [dictionary?_eq_some_iff names] at h
      rw [Json.mergedInto_object, dictionary?_eq_some_iff (Json.nodup_mergeFields names _)]
      intro name
      rw [Json.field?_mergeFields hnames, field?_entries, Dictionary.get?_mergeWith]
      have hname := h name
      cases e.get? name with
      | none => exact hname
      | some b =>
          cases hold : Json.field? name fields with
          | none =>
              rw [hold] at hname
              have hd : d.get? name = none := Option.map_eq_none_iff.1 hname.symm
              simp [hd, Json.mergedInto, hjson]
          | some j =>
              rw [hold, Option.map_some] at hname
              obtain ⟨a, ha, hj⟩ := Option.map_eq_some_iff.1 hname.symm
              simp [ha, hjoin depth j a b (regular _ (Json.mem_of_field? hold)) hj.symm]
  | null | bool | number | string | array => cases h

theorem imports?_mergedInto {depth : Nat} {j : Json} {imports : Imports} (hr : Json.Regular P depth j)
    (h : imports? j = some imports) (f : Imports) :
    imports? (Json.mergedInto (some j) (importsJson f)) = some (imports.mergeWith (fun _ path => path) f) := by
  refine dictionary?_mergedInto Json.asString? .string (fun _ => rfl) (fun _ j _ b _ _ => ?_) hr h f
  rw [Json.mergedInto_string]
  rfl

theorem scopes?_mergedInto {depth : Nat} {j : Json} {scopes : Dictionary Imports} (hr : Json.Regular P depth j)
    (h : scopes? j = some scopes) (f : Dictionary Imports) :
    scopes? (Json.mergedInto (some j) (scopesJson f)) =
      some (scopes.mergeWith (Dictionary.mergeWith fun _ path => path) f) :=
  dictionary?_mergedInto imports? importsJson imports?_importsJson (fun _ _ _ b hr h => imports?_mergedInto hr h b) hr h f

/-- A part of a document into which a part of a map is merged, whether the document has it or not. -/
theorem part?_mergedInto {json : Dictionary α → Json} {join : α → α → α} {value? : Json → Option (Dictionary α)}
    (hjson : ∀ e, value? (json e) = some e) {old : Option Json} (h : part? value? old.toList = some d)
    (hjoin : ∀ j, old = some j → value? j = some d → ∀ e, value? (Json.mergedInto (some j) (json e)) =
      some (d.mergeWith join e)) (e : Dictionary α) :
    part? value? [Json.mergedInto old (json e)] = some (d.mergeWith join e) := by
  cases old with
  | none =>
      cases h
      rw [Dictionary.mergeWith_empty]
      exact hjson e
  | some j => exact hjoin j rfl h e

end

theorem fieldsNamed_eq {fields : List (String × Json)} (hn : (fields.map Prod.fst).Nodup) (name : String) :
    fieldsNamed name fields = (Json.field? name fields).toList := by
  induction fields with
  | nil => rfl
  | cons field fields ih =>
      obtain ⟨key, value⟩ := field
      rw [List.map_cons, List.nodup_cons] at hn
      rw [fieldsNamed_cons, ih hn.2, Json.field?]
      by_cases hk : key = name
      · subst hk
        simp [Json.field?_eq_none hn.1]
      · simp [hk]

variable {P : Json.Number → Prop} {depth : Nat} {document : Json} {m : ImportMap}

theorem persistIn_eq (hobject : document.isObject) (f : ImportMap) :
    f.persistIn document = document.merge f.toJson := by
  rw [persistIn, if_pos hobject]

/-- A document holds its map overridden by the one that is merged into it. -/
theorem ofJson?_persistIn (hr : Json.Regular P depth document) (hobject : document.isObject)
    (hm : ofJson? document = some m) (f : ImportMap) : ofJson? (f.persistIn document) = some (m.override f) := by
  have himports := get?_persistIn f document "imports"
  have hscopes := get?_persistIn f document "scopes"
  rw [persistIn_eq hobject] at himports hscopes ⊢
  cases hr with
  | @object depth fields names regular =>
      rw [ofJson?, fieldsNamed_eq names, fieldsNamed_eq names] at hm
      obtain ⟨imports, hread, hrest⟩ := Option.bind_eq_some_iff.1 hm
      obtain ⟨scopes, hreadScopes, heq⟩ := Option.bind_eq_some_iff.1 hrest
      cases heq
      have hnewImports := part?_mergedInto imports?_importsJson hread
        (fun j hj h e => imports?_mergedInto (regular _ (Json.mem_of_field? hj)) h e) f.imports
      have hnewScopes := part?_mergedInto scopes?_scopesJson hreadScopes
        (fun j hj h e => scopes?_mergedInto (regular _ (Json.mem_of_field? hj)) h e) f.scopes
      rw [toJson, Json.merge] at himports hscopes ⊢
      have hmerged := Json.nodup_mergeFields names [("imports", importsJson f.imports), ("scopes", scopesJson f.scopes)]
      rw [if_pos rfl, Json.get?] at himports
      rw [if_neg (by decide), if_pos rfl, Json.get?] at hscopes
      rw [ofJson?, fieldsNamed_eq hmerged, fieldsNamed_eq hmerged, himports, hscopes]
      simp only [Option.toList_some]
      rw [Json.get?, hnewImports, Json.get?, hnewScopes]
      rfl
  | null | bool | number | string | array => cases hobject

theorem alike_entries {α : Type} {json : α → Json} (h : ∀ a b, Json.Alike (json a) (json b)) (d e : Dictionary α) :
    Json.Alike (.object (d.entries.map fun e => (e.1, json e.2))) (.object (e.entries.map fun e => (e.1, json e.2))) := by
  refine .object ?_ ?_ fun name value value' hv hv' => ?_
  · rw [List.map_map]
    exact d.nodup_keys
  · rw [List.map_map]
    exact e.nodup_keys
  · rw [field?_entries] at hv hv'
    obtain ⟨a, -, rfl⟩ := Option.map_eq_some_iff.1 hv
    obtain ⟨b, -, rfl⟩ := Option.map_eq_some_iff.1 hv'
    exact h a b

theorem alike_toJson (f g : ImportMap) : Json.Alike f.toJson g.toJson := by
  have himports := alike_entries Json.Alike.string
  refine .object (by simp) (by simp) fun name value value' hv hv' => ?_
  by_cases hi : name = "imports"
  · subst hi
    cases hv
    cases hv'
    exact himports f.imports g.imports
  · by_cases hs : name = "scopes"
    · subst hs
      cases hv
      cases hv'
      exact alike_entries himports f.scopes g.scopes
    · simp [Json.field?, Ne.symm hi, Ne.symm hs] at hv

theorem isObject_persistIn (f : ImportMap) (document : Json) : (f.persistIn document).isObject := by
  rw [persistIn, toJson]
  cases document <;> rfl

/-- Two maps are merged into a document as what comes of merging the second one into the first. -/
theorem persistIn_persistIn (hobject : document.isObject) (f g : ImportMap) :
    g.persistIn (f.persistIn document) = document.merge (f.toJson.merge g.toJson) := by
  rw [persistIn_eq (isObject_persistIn f document), persistIn_eq hobject, (alike_toJson f g).merge_assoc]

theorem persistIn_self (hobject : document.isObject) (f : ImportMap) :
    f.persistIn (f.persistIn document) = f.persistIn document := by
  rw [persistIn_persistIn hobject, (alike_toJson f f).merge_self, persistIn_eq hobject]

theorem regular_persistIn (hr : Json.Regular P Json.maxDepth document) (f : ImportMap) :
    Json.Regular P Json.maxDepth (f.persistIn document) := by
  have hobject : Json.Regular P Json.maxDepth (if document.isObject then document else .object []) := by
    split
    · exact hr
    · exact .object (by simp) (by simp)
  exact hobject.merge ((regular_toJson f).mono (by decide))

end ImportMap

end WebModules
