import WebModules.Install.Basic
import WebModules.Proofs.Graph.Resolve
import WebModules.Proofs.Registry.Served

/-!
What is found for a request depends on the network alone: the graph of the module that was asked
for, and the modules that the registry can identify in it.
-/

namespace WebModules

open Exploration Schedule

variable {n : Network}

/-- The graph of what can be reached from a module. -/
def Registry.graph (r : Registry) (n : Network) (root : String) : DependencyGraph RegistryError :=
  (resolve (limitFor n.texts n.locations) (timedLoader fun e => .now (r.loaded n e)) root ()).1

theorem Registry.gives_resolve (r : Registry) (n : Network) (root : String) :
    Gives n (resolve (limitFor n.texts n.locations)
      (fun path => do return .now (← r.load n path)) root) (r.graph n root) := by
  intro t ht
  have hload (e : String) : Gives n (do return .now (← r.load n e)) (Timed.now (r.loaded n e)) :=
    (r.gives_load n e).bind (.pure n (Timed.now (r.loaded n e)))
  obtain ⟨hrun, hkept⟩ := run_alone (fun e t ht => (hload e t ht).1)
    (fun e t ht => (hload e t ht).2) (limitFor n.texts n.locations) (s := initial root t) ht
  exact ⟨congrArg State.graph hrun, hkept⟩

/-- An exploration of what a registry serves ends within the steps that the network is known to take. -/
theorem Registry.explored {r : Registry} (hr : r.client.base.Regular) (n : Network) (root : String) {σ : Type}
    {loader : Loader σ RegistryError} {kept : σ → Prop} (ha : Answers loader kept (r.loaded n)) {shared : σ}
    (hk : kept shared) :
    (run loader (limitFor n.texts n.locations) (initial root shared)).agenda = [] ∧
      Invariant (r.loaded n) root (run loader (limitFor n.texts n.locations) (initial root shared)).view := by
  have hwithin := r.within_entries hr n
  have hlimit : cost (r.loaded n) (root :: n.entries.flatMap references) <
      limitFor (n.entries.map Prod.fst) n.locations :=
    hwithin.cost_lt fun _ => Network.length_le_locations
  rw [← Network.texts_eq] at hlimit
  obtain ⟨hend, hinvariant, -⟩ := run_ends ha (fun _ => hwithin.reachable) hlimit shared hk
  exact ⟨hend, hinvariant⟩

theorem Registry.settled_graph {r : Registry} (hr : r.client.base.Regular) (n : Network) (root : String) :
    ∃ loaded, Settled (r.loaded n) root loaded (r.graph n root) := by
  have hanswers : Answers (timedLoader fun e => .now (r.loaded n e)) (fun _ => True) (r.loaded n) :=
    ⟨fun _ _ _ => rfl, fun _ _ _ => trivial⟩
  have hkept : (fun _ : Unit => True) () := trivial
  obtain ⟨hend, hinvariant⟩ := Registry.explored hr n root hanswers hkept
  exact ⟨_, hinvariant.settled (by simp [State.view, hend])⟩

/-- A module of a graph depends on another one. -/
def DependencyGraph.Refers {ε : Type} (g : DependencyGraph ε) (importer child : String) : Prop :=
  ∃ children, (importer, children) ∈ g.edges ∧ child ∈ children

namespace Installer

variable (i : Installer) (n : Network)

/-- What the module for an entrypoint is, if the registry can tell. -/
def described (r : Registry) (root : PackageModule) (entrypoint : String) : Option PackageModule :=
  if entrypoint = root.entrypoint then some root
  else
    match r.identified n entrypoint with
    | .ok m => some (.identified i.layout m entrypoint)
    | .error _ => none

/-- All modules that are to be installed with a root. -/
def mapped (r : Registry) (root : PackageModule) : List MappedModule :=
  let graph := r.graph n root.entrypoint
  mappedModules root graph
    (graph.entrypoints.filterMap fun e => (i.described n r root e).map fun m => (e, m))

/-- The module that a request asks for. -/
def rootOf (r : Registry) (request : PackageRequest) (version : String) : PackageModule :=
  .of i.layout request.name request.target version
    (r.entrypoint request.name request.target request.version)

/-- What belongs to a package. -/
def found (request : PackageRequest) : Except InstallError ResolvedPackage :=
  match i.registries.find? fun r => r.offers n request.name request.target request.version with
  | none => .error (.registry (.notFound request.text))
  | some r =>
    match r.offered n request.name request.target request.version with
    | .error e => .error (.registry e)
    | .ok version =>
      let root := i.rootOf r request version
      match (r.graph n root.entrypoint).failures.lookup root.entrypoint with
      | some e => .error (.resolve root.entrypoint e)
      | none => .ok ⟨request, r, i.mapped n r root⟩

theorem gives_findRegistry (request : PackageRequest) (rs : List Registry) :
    Gives n (findRegistry n request rs)
      (rs.find? fun r => r.offers n request.name request.target request.version) := by
  induction rs with
  | nil => exact .pure n none
  | cons r rs ih =>
      unfold findRegistry
      refine (r.gives_has n _ _ _).bind ?_
      rw [List.find?_cons]
      cases r.offers n request.name request.target request.version with
      | true => exact .pure n _
      | false => exact ih

theorem gives_describe (r : Registry) (root : PackageModule) (entrypoint : String) :
    Gives n (i.describe n r root entrypoint) (i.described n r root entrypoint) := by
  unfold describe described
  split
  · exact .pure n _
  · refine (r.gives_identify n entrypoint).bind ?_
    cases r.identified n entrypoint <;> exact .pure n _

theorem gives_modulesOf (r : Registry) (root : PackageModule) (graph : DependencyGraph RegistryError) :
    Gives n (i.modulesOf n r root graph) (mappedModules root graph
      (graph.entrypoints.filterMap fun e => (i.described n r root e).map fun m => (e, m))) := by
  have hdescribed : Gives n (graph.entrypoints.mapM fun e => do
      return (← i.describe n r root e).map fun m => (e, m))
      (graph.entrypoints.map fun e => (i.described n r root e).map fun m => (e, m)) :=
    Gives.mapM fun e _ => (i.gives_describe n r root e).bind (.pure n _)
  have hfilter : (graph.entrypoints.map fun e => (i.described n r root e).map fun m => (e, m)).filterMap id =
      graph.entrypoints.filterMap fun e => (i.described n r root e).map fun m => (e, m) :=
    List.filterMap_map
  rw [← hfilter]
  exact hdescribed.bind (.pure n _)

theorem gives_graphOf (r : Registry) (entrypoint : String) : Gives n (graphOf n r entrypoint)
    (match (r.graph n entrypoint).takeFailure entrypoint with
    | (some e, _) => .error (.resolve entrypoint e)
    | (none, graph) => .ok graph) := by
  unfold graphOf
  refine (r.gives_resolve n entrypoint).bind ?_
  cases (r.graph n entrypoint).takeFailure entrypoint with
  | mk failure graph => cases failure <;> exact .pure n _

theorem gives_find (request : PackageRequest) : Gives n (i.find n request) (i.found n request) := by
  unfold find found
  refine (gives_findRegistry n request i.registries).bind ?_
  cases i.registries.find? fun r => r.offers n request.name request.target request.version with
  | none => exact .pure n _
  | some r =>
      dsimp only
      refine (r.gives_version n _ _ _).bind ?_
      cases r.offered n request.name request.target request.version with
      | error e => exact .pure n _
      | ok version =>
          unfold rootOf
          dsimp only
          generalize PackageModule.of i.layout request.name request.target version _ = root
          refine (gives_graphOf n r root.entrypoint).bind ?_
          unfold DependencyGraph.takeFailure
          cases (r.graph n root.entrypoint).failures.lookup root.entrypoint with
          | some e => exact .pure n _
          | none =>
              dsimp only
              refine (i.gives_modulesOf n r root _).bind ?_
              exact .pure n _

/-! What has been found -/

variable {i : Installer} {n : Network}

theorem found_eq_ok {request : PackageRequest} {p : ResolvedPackage} (h : i.found n request = .ok p) :
    p.registry ∈ i.registries ∧ ∃ version,
      (p.registry.graph n (i.rootOf p.registry request version).entrypoint).failures.lookup
        (i.rootOf p.registry request version).entrypoint = none ∧
      p = ⟨request, p.registry, i.mapped n p.registry (i.rootOf p.registry request version)⟩ := by
  unfold found at h
  cases hr : i.registries.find? fun r => r.offers n request.name request.target request.version with
  | none => simp [hr] at h
  | some r =>
      simp only [hr] at h
      cases hversion : r.offered n request.name request.target request.version with
      | error e => simp [hversion] at h
      | ok version =>
          simp only [hversion] at h
          cases hfailure : (r.graph n (i.rootOf r request version).entrypoint).failures.lookup
              (i.rootOf r request version).entrypoint with
          | some e => simp [hfailure] at h
          | none =>
              simp only [hfailure, Except.ok.injEq] at h
              subst h
              exact ⟨List.mem_of_find?_eq_some hr, version, hfailure, rfl⟩

theorem described_entrypoint {r : Registry} {root m : PackageModule} {entrypoint : String}
    (h : i.described n r root entrypoint = some m) : m.entrypoint = entrypoint := by
  unfold described at h
  split at h
  · rename_i hroot
    cases h
    exact hroot.symm
  · split at h
    · cases h
      rfl
    · cases h

theorem described_storage {r : Registry} {root m : PackageModule} {entrypoint : String}
    (hroot : root.storage = i.layout.storage root.name root.target root.version)
    (h : i.described n r root entrypoint = some m) : m.storage = i.layout.storage m.name m.target m.version := by
  rw [described] at h
  split at h
  · cases h
    exact hroot
  · split at h
    · cases h
      rfl
    · cases h

/-- Two modules of the graph of a root, both known to the registry, of which one imports the other. -/
structure Imports (i : Installer) (n : Network) (r : Registry) (root importer module : PackageModule) :
    Prop where
  edge : ∃ children, (importer.entrypoint, children) ∈ (r.graph n root.entrypoint).edges ∧
    module.entrypoint ∈ children
  importer : i.described n r root importer.entrypoint = some importer
  mem : module.entrypoint ∈ (r.graph n root.entrypoint).entrypoints
  module : i.described n r root module.entrypoint = some module

theorem lookup_filterMap {α : Type} (f : String → Option α) (es : List String) (e : String) :
    (es.filterMap fun e => (f e).map fun a => (e, a)).lookup e = if e ∈ es then f e else none := by
  induction es with
  | nil => rfl
  | cons e' es ih =>
      rw [List.filterMap_cons]
      by_cases he : e = e'
      · subst he
        cases hf : f e with
        | none => simp [ih, hf]
        | some a => simp
      · cases f e' with
        | none => simp [ih, he]
        | some a => simp [ih, he, List.lookup_cons, beq_eq_false_iff_ne.2 he]

/-- What is installed with a root: the root itself, and everything that a module refers to, if both of
them are in the graph and it is known what they are. -/
theorem mem_mappedModules_iff {graph : DependencyGraph RegistryError} {root : PackageModule}
    {describe : String → Option PackageModule} (hd : ∀ e m, describe e = some m → m.entrypoint = e)
    {m : MappedModule} :
    m ∈ mappedModules root graph (graph.entrypoints.filterMap fun e => (describe e).map fun m => (e, m)) ↔
      m = ⟨root, none⟩ ∨ ∃ importer module, graph.Refers importer.entrypoint module.entrypoint ∧
        describe importer.entrypoint = some importer ∧ module.entrypoint ∈ graph.entrypoints ∧
        describe module.entrypoint = some module ∧ m = ⟨module, some importer⟩ := by
  unfold mappedModules
  rw [List.mem_cons, List.mem_flatMap]
  refine or_congr_right ⟨?_, ?_⟩
  · rintro ⟨⟨e, children⟩, hedge, hm⟩
    dsimp only at hm
    rw [lookup_filterMap] at hm
    have he : e ∈ graph.entrypoints := List.mem_map_of_mem hedge
    rw [if_pos he] at hm
    cases hi : describe e with
    | none => simp [hi] at hm
    | some importer =>
        simp only [hi, List.mem_filterMap, List.mem_eraseDups, Option.map_eq_some_iff] at hm
        obtain ⟨child, hchild, module, hmodule, rfl⟩ := hm
        rw [lookup_filterMap] at hmodule
        split at hmodule
        · rename_i hkey
          refine ⟨importer, module, ⟨children, ?_, ?_⟩, ?_, ?_, ?_, rfl⟩
          · rwa [hd _ _ hi]
          · rwa [hd _ _ hmodule]
          · rwa [hd _ _ hi]
          · rwa [hd _ _ hmodule]
          · rwa [hd _ _ hmodule]
        · cases hmodule
  · rintro ⟨importer, module, ⟨children, hedge, hchild⟩, hi, hkey, hmodule, rfl⟩
    have he : importer.entrypoint ∈ graph.entrypoints := List.mem_map_of_mem hedge
    refine ⟨_, hedge, ?_⟩
    dsimp only
    rw [lookup_filterMap, if_pos he, hi]
    simp only [List.mem_filterMap, List.mem_eraseDups, Option.map_eq_some_iff]
    exact ⟨_, hchild, module, by rw [lookup_filterMap, if_pos hkey, hmodule], rfl⟩

/-- What is installed with a root: the root itself, and everything that one of its modules imports. -/
theorem mem_mapped {r : Registry} {root : PackageModule} {m : MappedModule} :
    m ∈ i.mapped n r root ↔ m = ⟨root, none⟩ ∨
      ∃ importer module, i.Imports n r root importer module ∧ m = ⟨module, some importer⟩ := by
  rw [mapped, mem_mappedModules_iff fun _ _ => described_entrypoint]
  refine or_congr_right ⟨?_, ?_⟩
  · rintro ⟨importer, module, hedge, hi, hmem, hmodule, rfl⟩
    exact ⟨importer, module, ⟨hedge, hi, hmem, hmodule⟩, rfl⟩
  · rintro ⟨importer, module, himports, rfl⟩
    exact ⟨importer, module, himports.edge, himports.importer, himports.mem, himports.module, rfl⟩

theorem described_of_mem_mapped {r : Registry} {root : PackageModule} {m : MappedModule}
    (h : m ∈ i.mapped n r root) : i.described n r root m.module.entrypoint = some m.module := by
  rcases mem_mapped.1 h with rfl | ⟨importer, module, himports, rfl⟩
  · simp [described]
  · exact himports.module

/-- A root that has not failed is in its graph. -/
theorem root_mem_graph {r : Registry} (hr : r.client.base.Regular) {root : String}
    (h : (r.graph n root).failures.lookup root = none) : root ∈ (r.graph n root).entrypoints := by
  obtain ⟨loaded, hsettled⟩ := Registry.settled_graph hr n root
  cases ho : outcome root (r.loaded n root) with
  | ok children =>
      have hedge := (hsettled.mem_edges root children).2 ⟨.root, outcome_eq_ok_iff.1 ho⟩
      exact List.mem_map_of_mem hedge
  | error e =>
      rw [hsettled.of_failing_root ho] at h
      simp at h

theorem entrypoint_mem_graph {r : Registry} {root : PackageModule} {m : MappedModule}
    (hroot : root.entrypoint ∈ (r.graph n root.entrypoint).entrypoints) (h : m ∈ i.mapped n r root) :
    m.module.entrypoint ∈ (r.graph n root.entrypoint).entrypoints := by
  rcases mem_mapped.1 h with rfl | ⟨importer, module, himports, rfl⟩
  · exact hroot
  · exact himports.mem

end Installer

end WebModules
