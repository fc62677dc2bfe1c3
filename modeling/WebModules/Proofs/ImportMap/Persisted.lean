import WebModules.Proofs.ImportMap.Override
import WebModules.Proofs.ImportMap.Removal
import WebModules.Proofs.Json.Regular

/-!
What a file holds once maps have been persisted in it, and what is read from it then.
-/

namespace WebModules.ImportMap

variable {P : Json.Number → Prop} {depth : Nat} {document : Json} {m : ImportMap}

/-! Documents that are printed -/

theorem part?_reread {α : Type} {value? : Json → Option (Dictionary α)} {d : Dictionary α}
    {fields fields' : List (String × Json)} {name : String} (names : (fields.map Prod.fst).Nodup)
    (regular : ∀ f ∈ fields, Json.Regular P depth f.2) (houtline : Json.outlineFields fields' = Json.outlineFields fields)
    (hexact : ∀ j, value? j = some d → Exact j) (h : part? value? (fieldsNamed name fields) = some d) :
    part? value? (fieldsNamed name (Json.distinctFields (Json.distinctValues fields'))) = some d := by
  rw [fieldsNamed_eq names] at h
  cases hfield : Json.field? name fields with
  | none =>
      have hnone : fieldsNamed name fields = [] := by rw [fieldsNamed_eq names, hfield]; rfl
      have hreread : fieldsNamed name (Json.distinctFields (Json.distinctValues fields')) = [] := by
        rw [Json.outlineFields_eq, Json.outlineFields_eq] at houtline
        have hnamed := congrArg (fieldsNamed name) houtline
        rw [fieldsNamed_map, fieldsNamed_map, hnone, List.map_nil, List.map_eq_nil_iff] at hnamed
        rw [fieldsNamed_distinctFields, Json.distinctValues_eq, fieldsNamed_map, hnamed]
        rfl
      rw [hreread]
      rwa [hfield] at h
  | some j =>
      have hone : fieldsNamed name fields = [j] := by rw [fieldsNamed_eq names, hfield]; rfl
      rw [hfield] at h
      rw [fieldsNamed_reread houtline hone (hexact j h) (regular _ (Json.mem_of_field? hfield)).distinct_eq]
      exact h

/-- A document that is printed has the same map when it is read again, whatever its numbers come back as. -/
theorem ofJson?_reread {document' : Json} (hr : Json.Regular P depth document) (hobject : document.isObject)
    (hm : ofJson? document = some m) (hread : Json.read (document.pretty ++ "\n") = .ok document') :
    document'.isObject ∧ ofJson? document' = some m := by
  obtain ⟨whole, hparse, rfl⟩ := Json.read_eq_ok hread
  cases hr with
  | @object depth fields names regular =>
      obtain ⟨fields', rfl, houtline⟩ := object_of_outline (Json.outline_of_parse_pretty hparse)
      obtain ⟨imports, himports, hrest⟩ := Option.bind_eq_some_iff.1 hm
      obtain ⟨scopes, hscopes, heq⟩ := Option.bind_eq_some_iff.1 hrest
      cases heq
      rw [Json.distinct]
      refine ⟨rfl, ?_⟩
      rw [ofJson?, part?_reread names regular houtline (fun _ => exact_of_imports?) himports,
        part?_reread names regular houtline (fun _ => exact_of_scopes?) hscopes]
      rfl
  | null | bool | number | string | array => cases hobject

/-! Documents in files -/

variable {path : String} {t : FileTree}

/-- The tree with a document printed into a file. -/
def stored (path : String) (document : Json) (t : FileTree) : FileTree :=
  t.put (Path.place path) (.file (document.pretty ++ "\n"))

theorem stored_stored (path : String) (first second : Json) (t : FileTree) :
    stored path second (stored path first t) = stored path second t :=
  FileTree.put_put t _ _ _

/-- A document can be read from a file. -/
def Legible (path : String) (t : FileTree) : Prop :=
  ∃ text document, t.read path = .ok text ∧ Json.read text = .ok document

/-- A file holds an object that has a map. -/
structure Shows (path : String) (t : FileTree) (document : Json) (m : ImportMap) : Prop where
  exists_read : ∃ text, t.read path = .ok text ∧ Json.read text = .ok document
  object : document.isObject
  map : ofJson? document = some m

namespace Shows

theorem legible (h : Shows path t document m) : Legible path t := by
  obtain ⟨text, hr, hj⟩ := h.exists_read
  exact ⟨text, document, hr, hj⟩

theorem documentIn_eq (h : Shows path t document m) : documentIn path t = document := by
  obtain ⟨text, hr, hj⟩ := h.exists_read
  exact documentIn_of_readable hr hj

theorem regular (h : Shows path t document m) : Json.Regular (fun _ => True) Json.maxDepth document := by
  obtain ⟨text, -, hj⟩ := h.exists_read
  exact Json.regular_of_read hj

theorem read_eq (h : Shows path t document m) : read path t = m := by
  rw [read, h.documentIn_eq, ofDocument, h.map]
  rfl

theorem persist_eq (h : Shows path t document m) (f : ImportMap) :
    persist path f t = (.ok (), stored path (f.persistIn document) t) := by
  obtain ⟨text, hr, -⟩ := h.exists_read
  rw [ImportMap.persist_eq hr, h.documentIn_eq]
  rfl

theorem read_stored (h : Shows path t document m) (written : Json) :
    (stored path written t).read path = .ok (written.pretty ++ "\n") := by
  obtain ⟨text, hr, -⟩ := h.exists_read
  exact FileTree.read_of_write (FileTree.write_existing hr (written.pretty ++ "\n"))

theorem ofJson?_persistIn (h : Shows path t document m) (f : ImportMap) :
    ofJson? (f.persistIn document) = some (m.override f) :=
  ImportMap.ofJson?_persistIn h.regular h.object h.map f

/-- If what has been written can be read, then it has the map with the entries of the one that was
persisted. -/
theorem stored (h : Shows path t document m) (f : ImportMap)
    (hl : Legible path (ImportMap.stored path (f.persistIn document) t)) :
    ∃ document', Shows path (ImportMap.stored path (f.persistIn document) t) document' (m.override f) := by
  obtain ⟨text, document', hr, hj⟩ := hl
  obtain rfl : _ = text := Except.ok.inj ((h.read_stored _).symm.trans hr)
  obtain ⟨hobject, hm⟩ := ofJson?_reread (regular_persistIn h.regular f) (isObject_persistIn f document)
    (h.ofJson?_persistIn f) hj
  exact ⟨document', ⟨_, hr, hj⟩, hobject, hm⟩

/-- If the numbers of the document are read as they are printed, then so is what has been written. -/
theorem stored_steady (h : Shows path t document m) (hs : Json.Regular Json.Steady Json.maxDepth document)
    (f : ImportMap) :
    Shows path (ImportMap.stored path (f.persistIn document) t) (f.persistIn document) (m.override f) :=
  ⟨⟨_, h.read_stored _, (regular_persistIn hs f).read_pretty⟩, isObject_persistIn f document, h.ofJson?_persistIn f⟩

theorem exists_both (h : Shows path t document m) (f g : ImportMap) : ∃ once both,
    persist path f t = (.ok (), once) ∧ persist path g once = (.ok (), both) ∧
      once.read path = .ok ((f.persistIn document).pretty ++ "\n") ∧
      (Legible path once → read path once = m.override f ∧
        (Legible path both → read path both = (m.override f).override g)) ∧
      (Json.Regular Json.Steady Json.maxDepth document → documentIn path once = f.persistIn document ∧
        persist path f once = (.ok (), once) ∧ documentIn path both = g.persistIn (f.persistIn document) ∧
        Legible path once ∧ Legible path both) := by
  have hread := h.read_stored (f.persistIn document)
  refine ⟨_, _, h.persist_eq f, ImportMap.persist_eq hread g, hread, fun hl => ?_, fun hs => ?_⟩
  · obtain ⟨document', hshows⟩ := h.stored f hl
    refine ⟨hshows.read_eq, fun hl' => ?_⟩
    rw [hshows.documentIn_eq] at hl' ⊢
    obtain ⟨document'', hshows'⟩ := hshows.stored g hl'
    exact hshows'.read_eq
  · have honce := h.stored_steady hs f
    have hboth := honce.stored_steady (regular_persistIn hs f) g
    rw [honce.documentIn_eq]
    refine ⟨rfl, ?_, hboth.documentIn_eq, honce.legible, hboth.legible⟩
    rw [honce.persist_eq, persistIn_self h.object, stored_stored]

end Shows

/-- Persisting a map overrides the map that a document has and changes no other field of it.  It makes no
difference to persist a map twice, to merge two maps before they are persisted, or in which order two maps
are persisted that agree.  What is read back is what has been written, apart from numbers that are not read
as they are printed. -/
theorem persist_overrides {text : String} (hr : t.read path = .ok text) (hj : Json.read text = .ok document)
    (hobject : document.isObject) (hm : ofJson? document = some m) (f g : ImportMap) :
    ∃ once both, persist path f t = (.ok (), once) ∧ persist path g once = (.ok (), both) ∧
      once.read path = .ok ((f.persistIn document).pretty ++ "\n") ∧
      ofJson? (f.persistIn document) = some (m.override f) ∧
      (∀ field, field ≠ "imports" → field ≠ "scopes" → (f.persistIn document).get? field = document.get? field) ∧
      f.persistIn (f.persistIn document) = f.persistIn document ∧
      g.persistIn (f.persistIn document) = document.merge (f.toJson.merge g.toJson) ∧
      (Legible path once → read path once = m.override f) ∧
      ((∀ n, Json.HasNumber n document → Json.Steady n) → documentIn path once = f.persistIn document ∧
        persist path f once = (.ok (), once) ∧ documentIn path both = g.persistIn (f.persistIn document)) ∧
      (Agree f g → ∃ other both', persist path g t = (.ok (), other) ∧ persist path f other = (.ok (), both') ∧
        ((∀ n, Json.HasNumber n document → Json.Steady n) ∨
          Legible path once ∧ Legible path both ∧ Legible path other ∧ Legible path both' →
            read path both' = read path both)) := by
  have hshows : Shows path t document m := ⟨⟨text, hr, hj⟩, hobject, hm⟩
  obtain ⟨once, both, honce, hboth, hread, hlegible, hsteady⟩ := hshows.exists_both f g
  refine ⟨once, both, honce, hboth, hread, hshows.ofJson?_persistIn f, fun field hi hs => ?_, persistIn_self hobject f,
    persistIn_persistIn hobject f g, fun hl => (hlegible hl).1, fun hn => ?_, fun hagree => ?_⟩
  · rw [get?_persistIn, if_neg hi, if_neg hs]
  · obtain ⟨hdocument, hagain, hlast, -⟩ := hsteady (hshows.regular.of_numbers hn)
    exact ⟨hdocument, hagain, hlast⟩
  · obtain ⟨other, both', hother, hboth', -, hlegible', hsteady'⟩ := hshows.exists_both g f
    refine ⟨other, both', hother, hboth', fun hl => ?_⟩
    obtain ⟨hl₁, hl₂, hl₃, hl₄⟩ : Legible path once ∧ Legible path both ∧ Legible path other ∧ Legible path both' := by
      rcases hl with hn | hl
      · have hs := hshows.regular.of_numbers hn
        exact ⟨(hsteady hs).2.2.2.1, (hsteady hs).2.2.2.2, (hsteady' hs).2.2.2.1, (hsteady' hs).2.2.2.2⟩
      · exact hl
    rw [(hlegible' hl₃).2 hl₄, (hlegible hl₁).2 hl₂, override_comm hagree]

/-- A document with a map of one name and another field. -/
def notedDocument : Json :=
  .object [("note", .array [.number (.integer 7), .bool true]), ("imports", .object [("a", .string "/w/a/1/a.js")])]

def noted : FileTree := ⟨[(["import-map.json"], .file (notedDocument.pretty ++ "\n"))]⟩

theorem persist_overrides_noted : ∃ once both,
    persist "/import-map.json" ⟨.single "a" "/w/a/2/a.js", .empty⟩ noted = (.ok (), once) ∧
      (read "/import-map.json" once).imports.get? "a" = some "/w/a/2/a.js" ∧
      persist "/import-map.json" ⟨.single "a" "/w/a/2/a.js", .empty⟩ once = (.ok (), once) ∧
      persist "/import-map.json" ⟨.single "b" "/w/b/1/b.js", .empty⟩ once = (.ok (), both) ∧
      (documentIn "/import-map.json" both).get? "note" = notedDocument.get? "note" := by
  have hseven : Json.Steady (.integer 7) := Json.steady_integer ⟨by decide, by decide⟩
  have hregular : Json.Regular Json.Steady Json.maxDepth notedDocument := by
    refine .object (by decide) (List.forall_mem_cons.2 ⟨.array ?_, List.forall_mem_cons.2 ⟨.object (by decide) ?_, ?_⟩⟩)
    · exact List.forall_mem_cons.2 ⟨.number _ hseven, List.forall_mem_cons.2 ⟨.bool _ _, fun _ => nofun⟩⟩
    · exact List.forall_mem_cons.2 ⟨.string _ _, fun _ => nofun⟩
    · exact fun _ => nofun
  have hm : ofJson? notedDocument = some ⟨.single "a" "/w/a/1/a.js", .empty⟩ := by decide +kernel
  have hr : noted.read "/import-map.json" = .ok (notedDocument.pretty ++ "\n") := rfl
  obtain ⟨once, both, hfirst, hsecond, -, hmap, -, -, -, -, hsteady, -⟩ :=
    persist_overrides hr hregular.read_pretty rfl hm
      ⟨.single "a" "/w/a/2/a.js", .empty⟩ ⟨.single "b" "/w/b/1/b.js", .empty⟩
  obtain ⟨honce, hagain, hboth⟩ := hsteady fun n hn => hregular.holds hn
  refine ⟨once, both, hfirst, ?_, hagain, hsecond, ?_⟩
  · rw [read, ofDocument, honce, hmap]
    decide +kernel
  · rw [hboth, get?_persistIn, get?_persistIn]
    rfl

/-- A map in an array is lost, and a number that is printed with fewer digits than it was read from may
come back as another one. -/
theorem persist_loses :
    let b : ImportMap := ⟨.single "b" "/w/b/1/b.js", .empty⟩
    let array : FileTree := ⟨[(["import-map.json"], .file "[\x7b\"a\":\"/w/a/1/a.js\"\x7d]")]⟩
    let fraction : FileTree :=
      ⟨[(["import-map.json"], .file "\x7b\"imports\":\x7b\x7d,\"note\":123456789.123456789\x7d")]⟩
    ((read "/import-map.json" array).imports.get? "a" = some "/w/a/1/a.js" ∧
      let once := persist "/import-map.json" b array
      once.1 = .ok () ∧ (read "/import-map.json" once.2).imports.get? "a" = none) ∧
    let once := persist "/import-map.json" b fraction
    let twice := persist "/import-map.json" b once.2
    once.1 = .ok () ∧ twice.1 = .ok () ∧ once.2.read "/import-map.json" ≠ twice.2.read "/import-map.json" := by
  decide +kernel

end WebModules.ImportMap
