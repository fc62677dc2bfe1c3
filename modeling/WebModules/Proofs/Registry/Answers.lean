import WebModules.Proofs.Basic
import WebModules.Registry.Basic

/-!
What clients and registries answer depends on the network alone, whatever has been asked before.
-/

namespace WebModules

variable {σ α β : Type}

/-- Every module that a client has kept is what its URL is answered with. -/
def Traffic.Faithful (n : Network) (t : Traffic) : Prop :=
  ∀ key m, t.kept.lookup key = some m → (Client.requestModule n key.2).2 = .ok m

theorem Traffic.faithful_empty (n : Network) : Traffic.empty.Faithful n := by
  intro key m h
  cases h

/-- Work on traffic that gives a value, if clients have kept what the network answers, and that
leaves it so. -/
def Gives (n : Network) (work : StateM Traffic α) (a : α) : Prop :=
  ∀ t, t.Faithful n → (work t).1 = a ∧ (work t).2.Faithful n

namespace Gives

variable {n : Network} {work : StateM Traffic α} {a : α} {b : β}

theorem pure (n : Network) (a : α) : Gives n (pure a) a := fun _ ht => ⟨rfl, ht⟩

theorem bind (h : Gives n work a) {next : α → StateM Traffic β} (hnext : Gives n (next a) b) :
    Gives n (work >>= next) b := by
  intro t ht
  obtain ⟨hvalue, htraffic⟩ := h t ht
  have := hnext (work t).2 htraffic
  rw [← hvalue] at this
  exact this

theorem mapM {items : List β} {work : β → StateM Traffic α} {f : β → α}
    (h : ∀ item ∈ items, Gives n (work item) (f item)) : Gives n (items.mapM work) (items.map f) := by
  induction items with
  | nil => exact .pure n []
  | cons item items ih =>
      rw [List.mapM_cons, List.map_cons]
      have hrest := ih fun next hnext => h next (List.mem_cons_of_mem _ hnext)
      exact (h item List.mem_cons_self).bind (hrest.bind (.pure n _))

end Gives

namespace Client

/-- What a client answers for a path. -/
def answer (c : Client) (n : Network) (path : String) : Except FetchError ServedModule :=
  match c.urlFor path with
  | .error e => .error e
  | .ok u => (requestModule n u).2

theorem gives_fetch (c : Client) (n : Network) (path : String) :
    Gives n (c.fetch n path) (c.answer n path) := by
  intro t ht
  unfold fetch answer
  cases c.urlFor path with
  | error e => exact ⟨rfl, ht⟩
  | ok u =>
      dsimp only
      cases hkept : t.kept.lookup (c.number, u) with
      | some m => exact ⟨(ht _ _ hkept).symm, ht⟩
      | none =>
          refine ⟨rfl, fun key m h => ?_⟩
          cases hanswer : (requestModule n u).2 with
          | error e =>
              rw [hanswer] at h
              exact ht key m h
          | ok served =>
              rw [hanswer] at h
              dsimp only at h
              rw [List.lookup_cons] at h
              split at h
              · rename_i hkey
                cases h
                rw [eq_of_beq hkey]
                exact hanswer
              · exact ht key m h

end Client

namespace Registry

variable (r : Registry) (n : Network)

/-- What a registry serves for a path. -/
def served (path : String) : Except RegistryError ServedModule :=
  (r.client.answer n path).mapError (.unavailable r.backend path)

/-- The text of the module at a path, and where it is served from. -/
def loaded (path : String) : Except RegistryError LoadedModule :=
  (r.served n path).map fun m => ⟨m.source, r.client.location m⟩

/-- What the module at a path is. -/
def identified (path : String) : Except RegistryError ModuleIdentity :=
  match r.served n path with
  | .error e => .error e
  | .ok m =>
    match r.backend.identify? m.path with
    | some identity => .ok identity
    | none => .error (.malformed r.backend path)

/-- Whether a registry has a package. -/
def offers (package : String) (target version : Option String) : Bool :=
  match r.served n (r.entrypoint package target version) with
  | .ok m => !(r.backend.failureMarkers.any fun mark =>
      Text.occursIn mark.toList m.firstLine.toList)
  | .error _ => false

/-- The version that a registry has of a package. -/
def offered (package : String) (target version : Option String) : Except RegistryError String :=
  match r.identified n (r.entrypoint package target version) with
  | .error e => .error e
  | .ok identity =>
    match Version.parse? identity.version with
    | some _ => .ok identity.version
    | none => .error (.invalidVersion r.backend package identity.version)

theorem gives_fetch (path : String) : Gives n (r.fetch n path) (r.served n path) := by
  unfold fetch served
  refine (r.client.gives_fetch n path).bind ?_
  cases r.client.answer n path <;> exact .pure n _

theorem gives_load (path : String) : Gives n (r.load n path) (r.loaded n path) := by
  unfold load loaded
  refine (r.gives_fetch n path).bind ?_
  cases r.served n path <;> exact .pure n _

theorem gives_identify (path : String) : Gives n (r.identify n path) (r.identified n path) := by
  unfold identify identified
  refine (r.gives_fetch n path).bind ?_
  cases r.served n path with
  | error e => exact .pure n _
  | ok m =>
      dsimp only
      cases r.backend.identify? m.path <;> exact .pure n _

theorem gives_has (package : String) (target version : Option String) :
    Gives n (r.has n package target version) (r.offers n package target version) := by
  unfold has offers
  refine (r.gives_fetch n _).bind ?_
  cases r.served n (r.entrypoint package target version) <;> exact .pure n _

theorem gives_version (package : String) (target version : Option String) :
    Gives n (r.version n package target version) (r.offered n package target version) := by
  unfold Registry.version offered
  refine (r.gives_identify n _).bind ?_
  cases r.identified n (r.entrypoint package target version) with
  | error e => exact .pure n _
  | ok identity =>
      dsimp only
      cases Version.parse? identity.version <;> exact .pure n _

end Registry

end WebModules
