import WebModules.Proofs.Install.Scopes

/-!
How the modules that are installed with a root are linked to it.  A module that the registry cannot
identify is left out, and so is what only such modules refer to; but what these modules refer to in
turn is installed.
-/

namespace WebModules

open Schedule

/-- What a graph leads to from a root by way of entrypoints of a certain kind. -/
inductive DependencyGraph.Reaches {ε : Type} (g : DependencyGraph ε) (through : String → Prop) (root : String) :
    String → Prop
  | root (mem : through root) : Reaches g through root root
  | child {e c : String} (parent : Reaches g through root e) (edge : g.Refers e c) (mem : through c) :
      Reaches g through root c

namespace DependencyGraph

variable {ε : Type} {g : DependencyGraph ε} {P Q : String → Prop} {root e c : String}

theorem Reaches.through (h : g.Reaches P root e) : P e := by
  cases h with
  | root mem => exact mem
  | child _ _ mem => exact mem

/-- The kind of the entrypoints matters only where one gets to. -/
theorem Reaches.of_forall (h : g.Reaches P root e) (hq : ∀ e, g.Reaches P root e → Q e) : g.Reaches Q root e := by
  induction h with
  | root mem => exact .root (hq _ (.root mem))
  | child parent edge mem ih => exact .child ih edge (hq _ (.child parent edge mem))

theorem Refers.mem (h : g.Refers e c) : e ∈ g.entrypoints := by
  obtain ⟨children, hedge, -⟩ := h
  exact List.mem_map_of_mem hedge

end DependencyGraph

namespace Installer

/-- An entrypoint of a graph of which it is known what module it is. -/
def Kept (i : Installer) (n : Network) (r : Registry) (root : PackageModule)
    (graph : DependencyGraph RegistryError) (entrypoint : String) : Prop :=
  entrypoint ∈ graph.entrypoints ∧ (i.described n r root entrypoint).isSome

/-- One of some modules is that for an entrypoint. -/
def Listed (ms : List MappedModule) (entrypoint : String) : Prop := ∃ m ∈ ms, m.module.entrypoint = entrypoint

variable {i : Installer} {n : Network} {r : Registry} {root : PackageModule}
  {graph : DependencyGraph RegistryError} {t : Traffic}

theorem not_isRoot_of_mem_tail {known : List (String × PackageModule)} {m : MappedModule}
    (h : m ∈ (mappedModules root graph known).tail) : m.isRoot = false := by
  rw [mappedModules, List.tail_cons] at h
  obtain ⟨edge, -, h⟩ := List.mem_flatMap.1 h
  split at h
  · cases h
  · obtain ⟨child, -, h⟩ := List.mem_filterMap.1 h
    obtain ⟨module, -, rfl⟩ := Option.map_eq_some_iff.1 h
    rfl

theorem mem_modulesOf_iff (ht : t.Faithful n) {m : MappedModule} : m ∈ (i.modulesOf n r root graph t).1 ↔
    m = ⟨root, none⟩ ∨ ∃ importer module, graph.Refers importer.entrypoint module.entrypoint ∧
      i.described n r root importer.entrypoint = some importer ∧ module.entrypoint ∈ graph.entrypoints ∧
      i.described n r root module.entrypoint = some module ∧ m = ⟨module, some importer⟩ := by
  rw [(i.gives_modulesOf n r root graph t ht).1]
  exact mem_mappedModules_iff fun _ _ => described_entrypoint

/-- What a module that is kept refers to is installed, if it is kept too. -/
theorem exists_mem_modulesOf (ht : t.Faithful n) {e : String} {module : PackageModule}
    (he : i.Kept n r root graph e) (hedge : graph.Refers e module.entrypoint)
    (hmem : module.entrypoint ∈ graph.entrypoints) (hmodule : i.described n r root module.entrypoint = some module) :
    ∃ m ∈ (i.modulesOf n r root graph t).1, m.module = module := by
  obtain ⟨importer, himporter⟩ := Option.isSome_iff_exists.1 he.2
  obtain rfl : importer.entrypoint = e := described_entrypoint himporter
  exact ⟨⟨module, some importer⟩,
    (mem_modulesOf_iff ht).2 (.inr ⟨importer, module, hedge, himporter, hmem, hmodule, rfl⟩), rfl⟩

theorem Listed.kept (hroot : root.entrypoint ∈ graph.entrypoints) (ht : t.Faithful n) {e : String}
    (h : Listed (i.modulesOf n r root graph t).1 e) : i.Kept n r root graph e := by
  obtain ⟨m, hm, rfl⟩ := h
  rcases (mem_modulesOf_iff ht).1 hm with rfl | ⟨importer, module, -, -, hmem, hmodule, rfl⟩
  · exact ⟨hroot, by simp [described]⟩
  · exact ⟨hmem, by rw [hmodule]; rfl⟩

theorem listed_of_reaches (ht : t.Faithful n) {e : String}
    (h : graph.Reaches (i.Kept n r root graph) root.entrypoint e) : Listed (i.modulesOf n r root graph t).1 e := by
  cases h with
  | root => exact ⟨⟨root, none⟩, (mem_modulesOf_iff ht).2 (.inl rfl), rfl⟩
  | child parent edge mem =>
      obtain ⟨module, hmodule⟩ := Option.isSome_iff_exists.1 mem.2
      obtain rfl : module.entrypoint = e := described_entrypoint hmodule
      obtain ⟨m, hm, rfl⟩ := exists_mem_modulesOf ht parent.through edge mem.1 hmodule
      exact ⟨m, hm, rfl⟩

/-- Modules of which it is known what they are lead to the same ones as those that are installed. -/
theorem reaches_listed_iff (hroot : root.entrypoint ∈ graph.entrypoints) (ht : t.Faithful n) {e : String} :
    graph.Reaches (Listed (i.modulesOf n r root graph t).1) root.entrypoint e ↔
      graph.Reaches (i.Kept n r root graph) root.entrypoint e :=
  ⟨fun h => h.of_forall fun _ he => he.through.kept hroot ht,
    fun h => h.of_forall fun _ he => listed_of_reaches ht he⟩

/-- Every module that is installed with a root has an importer that is known and refers to it.  The
importer is installed as well unless only modules refer to it that are left out.  So the modules that
are installed are linked to the root as far as the ones that are known are. -/
theorem modulesOf_linked (hroot : root.entrypoint ∈ graph.entrypoints) (ht : t.Faithful n) :
    let kept := i.Kept n r root graph
    let listed := (i.modulesOf n r root graph t).1
    ∃ others, listed = ⟨root, none⟩ :: others ∧
      (∀ m ∈ others, ∃ importer, m.importer = some importer ∧
        graph.Refers importer.entrypoint m.module.entrypoint ∧
        i.described n r root importer.entrypoint = some importer ∧
        ((∃ k ∈ listed, k.module = importer) ∨ ∀ e, graph.Refers e importer.entrypoint → ¬ kept e)) ∧
      (∀ e, graph.Reaches (Listed listed) root.entrypoint e ↔ graph.Reaches kept root.entrypoint e) ∧
      ((∀ e, kept e → graph.Reaches kept root.entrypoint e) →
        ∀ m ∈ others, ∃ k ∈ listed, m.importer = some k.module) := by
  intro kept listed
  have heq : listed = _ := (i.gives_modulesOf n r root graph t ht).1
  have hcons : listed = ⟨root, none⟩ :: listed.tail := by
    rw [heq, mappedModules, List.tail_cons]
  have hothers (m : MappedModule) (hm : m ∈ listed.tail) : ∃ importer, m.importer = some importer ∧
      graph.Refers importer.entrypoint m.module.entrypoint ∧
      i.described n r root importer.entrypoint = some importer := by
    have hroot := not_isRoot_of_mem_tail (heq ▸ hm)
    rcases (mem_modulesOf_iff ht).1 (List.mem_of_mem_tail hm) with rfl | ⟨importer, module, hedge, hi, -, -, rfl⟩
    · cases hroot
    · exact ⟨importer, rfl, hedge, hi⟩
  refine ⟨listed.tail, hcons, ?_, fun e => reaches_listed_iff hroot ht, fun hkept m hm => ?_⟩
  · intro m hm
    obtain ⟨importer, himporter, hedge, hi⟩ := hothers m hm
    refine ⟨importer, himporter, hedge, hi, or_iff_not_imp_right.2 fun hreferred => ?_⟩
    obtain ⟨e, he, hk⟩ : ∃ e, graph.Refers e importer.entrypoint ∧ kept e := by simpa using hreferred
    exact exists_mem_modulesOf ht hk he hedge.mem hi
  · obtain ⟨importer, himporter, hedge, hi⟩ := hothers m hm
    have hreached := hkept importer.entrypoint ⟨hedge.mem, by rw [hi]; rfl⟩
    obtain ⟨k, hk, hsame⟩ := listed_of_reaches ht hreached
    have hdescribed : i.described n r root k.module.entrypoint = some k.module := by
      rcases (mem_modulesOf_iff ht).1 hk with rfl | ⟨importer, module, -, -, -, hmodule, rfl⟩
      · simp [described]
      · exact hmodule
    rw [hsame, hi] at hdescribed
    exact ⟨k, hk, himporter.trans hdescribed⟩

end Installer

/-- A package in which the only way to two modules leads through one that has no name. -/
def hiddenNetwork : Network :=
  ⟨[("http://cdn.test/app", some ⟨200, "", some "/app@2.0.0", none⟩),
    ("http://cdn.test/app@2.0.0", some ⟨200, "import '/plain.js'", none, none⟩),
    ("http://cdn.test/plain.js", some ⟨200, "import '/mid@1.0.0'", none, none⟩),
    ("http://cdn.test/mid@1.0.0", some ⟨200, "import '/dep@1.0.0'", none, none⟩),
    ("http://cdn.test/dep@1.0.0", some ⟨200, "", none, none⟩)], true⟩

def midModule : PackageModule := .of mirrored.layout "mid" none "1.0.0" "/mid@1.0.0"

theorem hidden_modules :
    let graph := mirror.graph hiddenNetwork appModule.entrypoint
    appModule.entrypoint ∈ graph.entrypoints ∧
      (mirrored.modulesOf hiddenNetwork mirror appModule graph .empty).1 =
        [⟨appModule, none⟩, ⟨depModule, some midModule⟩] := by
  decide +kernel

theorem modulesOf_linked_hidden :
    let graph := mirror.graph hiddenNetwork appModule.entrypoint
    ⟨depModule, some midModule⟩ ∈ (mirrored.modulesOf hiddenNetwork mirror appModule graph .empty).1 ∧
      ∀ e, graph.Refers e midModule.entrypoint → ¬ mirrored.Kept hiddenNetwork mirror appModule graph e := by
  intro graph
  obtain ⟨hroot, hlisted⟩ := hidden_modules
  obtain ⟨others, hothers, himporters, -, -⟩ :=
    Installer.modulesOf_linked (i := mirrored) (r := mirror) hroot (Traffic.faithful_empty hiddenNetwork)
  have hdep : ⟨depModule, some midModule⟩ ∈ others := by
    rw [hlisted] at hothers
    simp [← (List.cons.inj hothers).2]
  obtain ⟨importer, himporter, -, -, hlinked⟩ := himporters _ hdep
  obtain rfl : midModule = importer := Option.some.inj himporter
  refine ⟨by simp [graph, hlisted], hlinked.resolve_left ?_⟩
  rw [hlisted]
  decide +kernel

/-- A module is installed, and entered in the scope of one that is not. -/
theorem install_unlinked :
    (mirrored.find hiddenNetwork ⟨"app", none, none⟩ .empty).1.toOption.map ResolvedPackage.modules =
        some [⟨appModule, none⟩, ⟨depModule, some midModule⟩] ∧
      let outcome := mirrored.install hiddenNetwork ⟨"app", none, none⟩ ⟨.empty, .empty⟩
      outcome.1.toOption.map InstalledPackage.modules =
        some [⟨appModule, none⟩, ⟨depModule, some midModule⟩] ∧
      (∀ m ∈ [appModule, depModule], m.storage.path ≠ midModule.storage.path) ∧
      outcome.2.files.read depModule.storage.path = .ok "" ∧
      ImportMap.scoped? (ImportMap.documentIn mirrored.importMapPath outcome.2.files)
        midModule.storage.relativeDir depModule.importName = some depModule.storage.relativePath := by
  simp only [Installer.install_eq]
  decide +kernel

end WebModules
