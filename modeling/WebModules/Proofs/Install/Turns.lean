import WebModules.Proofs.Install.Batch
import WebModules.Proofs.Registry.Requests

/-!
What becomes of a project while packages are installed together, in whatever order they are worked on, as far as
each of their steps does the same to it.
-/

namespace WebModules

open Exploration Schedule

namespace Exploration

variable {σ ε : Type}

/-- A step changes what is shared as loading a module does, or not at all. -/
theorem step_shared (loader : Loader σ ε) (s : State σ ε) :
    (step loader s).shared = s.shared ∨ ∃ entrypoint, (step loader s).shared = (loader entrypoint s.shared).2 := by
  obtain ⟨seen, graph, agenda, shared⟩ := s
  match agenda with
  | [] => exact .inl rfl
  | ⟨round, place, .visit entrypoint⟩ :: agenda =>
      by_cases hseen : entrypoint ∈ seen
      · exact .inl (by simp [step, hseen])
      · refine .inr ⟨entrypoint, ?_⟩
        simp [step, hseen]
        rfl
  | ⟨round, place, .follow entrypoint loaded⟩ :: agenda =>
      left
      cases houtcome : outcome entrypoint loaded <;> simp [step, houtcome]

end Exploration

namespace Installer

variable {α : Type} {i : Installer} {n : Network} {R : World → World → Prop} {w : World}

/-- What each step of an installation does to a project: a request, an entry in the import map, and what is made or
written for a module that lies where the layout puts it. -/
structure Rule (i : Installer) (n : Network) (R : World → World → Prop) : Prop where
  refl (w : World) : R w w
  trans {w w' w'' : World} (first : R w w') (rest : R w' w'') : R w w''
  ask {α : Type} {work : StateM Traffic α} (spending : Spending n work) (w : World) : R w (World.onTraffic work w).2
  enter (m : MappedModule) (w : World) : R w (i.persist m w).2
  make {m : PackageModule} (known : i.layout.Knows m) (w : World) :
    R w (World.onFiles (fun t => t.makeDirectories m.storage.dir) w).2
  write {m : PackageModule} (known : i.layout.Knows m) {w : World} {text : String} {t : FileTree}
    (written : w.files.write m.storage.path text = .ok t) : R w { w with files := t }

/-! Tasks -/

theorem spending_describe (i : Installer) (n : Network) (r : Registry) (root : PackageModule) (entrypoint : String) :
    Spending n (i.describe n r root entrypoint) := by
  unfold describe
  split
  · exact .pure n _
  · apply (r.spending_identify n entrypoint).bind
    intro result
    cases result <;> exact .pure n _

theorem spending_nameFor (r : Registry) (n : Network) (location specifier : String) :
    Spending n (nameFor n r location specifier) := by
  unfold nameFor
  apply (r.spending_identify n _).bind
  intro result
  cases result <;> exact .pure n _

/-- A task of which each step does to a project what a rule says. -/
abbrev Obeys (R : World → World → Prop) (P : α → Prop) (task : Task World α) : Prop := task.Meets (fun _ => True) R P

namespace Rule

theorem asking (h : Rule i n R) {work : StateM Traffic α} {P : α → Prop} (hs : Spending n work) (hp : Ensures work P) :
    Obeys R P (asking work) :=
  .once fun w _ => ⟨h.ask hs w, hp w.traffic⟩

theorem choosingRegistry (h : Rule i n R) (request : PackageRequest) (rs : List Registry) :
    Obeys R (fun _ => True) (choosingRegistry n request rs) := by
  induction rs with
  | nil => exact .pure trivial
  | cons r rs ih =>
      rw [Installer.choosingRegistry]
      refine (h.asking (P := fun _ => True) (r.spending_has n _ _ _) fun _ => trivial).bind fun offers _ => ?_
      cases offers with
      | true => exact .pure trivial
      | false => exact ih

theorem choosing (h : Rule i n R) (request : PackageRequest) :
    Obeys R (fun chosen => ∀ r root, chosen = .ok (r, root) → i.layout.Knows root) (i.choosing n request) := by
  rw [Installer.choosing]
  refine (h.choosingRegistry request i.registries).bind fun found _ => ?_
  cases found with
  | none => exact .pure nofun
  | some r =>
      refine (h.asking (r.spending_version n _ _ _) (r.ensures_version n _ _ _)).bind fun version hversion => ?_
      cases version with
      | error e => exact .pure nofun
      | ok version =>
          refine .pure fun r' root hroot => ?_
          cases hroot
          exact ⟨rfl, hversion version rfl⟩

theorem describing (h : Rule i n R) (r : Registry) {root : PackageModule} (hroot : i.layout.Knows root)
    (entrypoint : String) :
    Obeys R (fun entry? => ∀ entry ∈ entry?, i.layout.Knows entry.2) (i.describing n r root entrypoint) := by
  refine (h.asking (spending_describe i n r root entrypoint) (i.ensures_describe n r hroot entrypoint)).bind
    fun described hknown => .pure fun entry hentry => ?_
  obtain ⟨m, hm, rfl⟩ := Option.map_eq_some_iff.1 hentry
  exact hknown m hm

theorem persisting (h : Rule i n R) {m : MappedModule} (hm : i.layout.Knows m.module) :
    Obeys R (fun entered => ∀ m, entered = .ok m → i.layout.Knows m.module) (.once (i.persist m)) := by
  refine .once fun w _ => ⟨h.enter m w, fun m' hentered => ?_⟩
  obtain ⟨rfl, -⟩ := persist_eq_ok (Prod.ext hentered rfl)
  exact hm

theorem preparing (h : Rule i n R) (r : Registry) (entrypoint : String) :
    Obeys R (fun _ => True) (preparing n r entrypoint) := by
  rw [Installer.preparing]
  refine (h.asking (P := fun _ => True) (r.spending_load n entrypoint) fun _ => trivial).bind fun loaded _ => ?_
  cases loaded with
  | error e => exact .pure trivial
  | ok loaded =>
      dsimp only
      split
      · exact .pure trivial
      · split
        · exact .pure trivial
        · have hnames (d : Dependency) : Obeys R (fun _ => True) (Installer.asking (nameFor n r loaded.location d.specifier)) :=
            h.asking (spending_nameFor r n loaded.location d.specifier) fun _ => trivial
          exact (Task.Meets.mapM_forall fun d _ => hnames d).bind fun _ _ => .pure trivial

theorem downloading (h : Rule i n R) (r : Registry) {m : MappedModule} (hm : i.layout.Knows m.module) :
    Obeys R (fun _ => True) (downloading n r m) := by
  rw [Installer.downloading]
  refine (h.preparing r m.module.entrypoint).bind fun prepared _ => ?_
  cases prepared with
  | error e => exact .pure trivial
  | ok text =>
      refine Task.Meets.bind (P := fun _ => True) (.once fun w _ => ⟨h.make hm w, trivial⟩) fun made _ => ?_
      cases made with
      | error e => exact .pure trivial
      | ok u =>
          refine Task.Meets.bind (P := fun _ => True) (.once fun w _ => ⟨?_, trivial⟩) fun written _ => ?_
          · rw [World.onFiles]
            cases hwritten : w.files.write m.module.storage.path text with
            | error e => exact h.refl w
            | ok t => exact h.write hm hwritten
          · cases written <;> exact .pure trivial

theorem exploring (h : Rule i n R) (r : Registry) (delay : Nat) (s : State Traffic RegistryError) (w : World) :
    R w { w with traffic := (step (loader n r delay) { s with shared := w.traffic }).shared } := by
  rcases step_shared (loader n r delay) { s with shared := w.traffic } with hsame | ⟨entrypoint, hloaded⟩
  · rw [hsame]
    exact h.refl w
  · rw [hloaded]
    exact h.ask (r.spending_load n entrypoint) w

end Rule

/-! Packages -/

/-- A package of which all that is still to be done obeys a rule.  The modules that it has come to lie where the
layout puts them. -/
def Phase.Obeys (i : Installer) (R : World → World → Prop) : Phase → Prop
  | .choosing task => Installer.Obeys R (fun chosen => ∀ r root, chosen = .ok (r, root) → i.layout.Knows root) task
  | .exploring _ root _ => i.layout.Knows root
  | .describing _ root _ tasks => i.layout.Knows root ∧
      ∀ task ∈ tasks, Installer.Obeys R (fun entry? => ∀ entry ∈ entry?, i.layout.Knows entry.2) task
  | .entering _ tasks =>
      ∀ task ∈ tasks, Installer.Obeys R (fun entered => ∀ m, entered = .ok m → i.layout.Knows m.module) task
  | .writing _ tasks => ∀ task ∈ tasks, Installer.Obeys R (fun _ => True) task
  | .ended _ => True

namespace Rule

theorem enter_all (h : Rule i n R) {p : ResolvedPackage} (hp : ∀ m ∈ p.modules, i.layout.Knows m.module) :
    (Phase.enter i p).Obeys i R := by
  intro task htask
  obtain ⟨m, hm, rfl⟩ := List.mem_map.1 htask
  exact h.persisting (hp m hm)

theorem write_all (h : Rule i n R) {p : ResolvedPackage} (hp : ∀ m ∈ p.modules, i.layout.Knows m.module) :
    (Phase.write n p).Obeys i R := by
  intro task htask
  obtain ⟨m, hm, rfl⟩ := List.mem_map.1 htask
  exact h.downloading p.registry (hp m (mem_of_mem_distinctFiles hm))

theorem phase_turn (h : Rule i n R) {phase : Phase} (hp : phase.Obeys i R) (request : PackageRequest) (item delay : Nat)
    (w : World) : R w (phase.turn i n request item delay w).2 ∧ (phase.turn i n request item delay w).1.Obeys i R := by
  cases phase with
  | choosing task =>
      cases hp with
      | step keeps rest => exact ⟨keeps w trivial, rest w trivial⟩
      | @done chosen known =>
          cases chosen with
          | error e => exact ⟨h.refl w, trivial⟩
          | ok pair => exact ⟨h.refl w, known pair.1 pair.2 rfl⟩
  | exploring r root s =>
      rw [Phase.turn]
      split
      · split
        · exact ⟨h.refl w, trivial⟩
        · refine ⟨h.refl w, hp, fun task htask => ?_⟩
          obtain ⟨entrypoint, -, rfl⟩ := List.mem_map.1 htask
          exact h.describing r hp entrypoint
      · exact ⟨h.exploring r delay s w, hp⟩
  | describing r root graph tasks =>
      obtain ⟨hroot, htasks⟩ := hp
      rw [Phase.turn]
      split
      · rename_i described hdescribed
        exact ⟨h.refl w, h.enter_all fun m hm => i.knows_mappedModules hroot (Task.Meets.results htasks hdescribed) hm⟩
      · obtain ⟨hstep, hrest⟩ := Task.Meets.turn htasks (h.refl w) trivial item
        exact ⟨hstep, hroot, hrest⟩
  | entering p tasks =>
      rw [Phase.turn]
      split
      · rename_i results hresults
        refine ⟨h.refl w, ?_⟩
        rw [Phase.afterEntering]
        split
        · trivial
        · rename_i ms hcollect
          refine h.write_all fun m hm => ?_
          have hmem : .ok m ∈ results := Pipeline.collect_eq_ok hcollect ▸ List.mem_map_of_mem hm
          exact Task.Meets.results hp hresults _ hmem m rfl
      · exact Task.Meets.turn hp (h.refl w) trivial item
  | writing p tasks =>
      rw [Phase.turn]
      split
      · exact ⟨h.refl w, trivial⟩
      · exact Task.Meets.turn hp (h.refl w) trivial item
  | ended outcome => exact ⟨h.refl w, trivial⟩

/-! Batches -/

theorem batch_turn (h : Rule i n R) {b : Batch} (hb : ∀ x ∈ b.packages, x.2.Obeys i R) (t : Turn) :
    R b.world (b.turn i n t).world ∧ ∀ x ∈ (b.turn i n t).packages, x.2.Obeys i R := by
  rw [Batch.turn]
  cases hpackage : b.packages[t.package]? with
  | none => exact ⟨h.refl b.world, hb⟩
  | some x =>
      obtain ⟨hstep, hphase⟩ := h.phase_turn (hb x (List.mem_of_getElem? hpackage)) x.1 t.item t.delay b.world
      refine ⟨hstep, fun y hy => ?_⟩
      rcases List.mem_or_eq_of_mem_set hy with hy | rfl
      · exact hb y hy
      · exact hphase

theorem batch_turns (h : Rule i n R) {b : Batch} (hb : ∀ x ∈ b.packages, x.2.Obeys i R) (schedule : List Turn) :
    R b.world (b.turns i n schedule).world := by
  induction schedule generalizing b with
  | nil => exact h.refl b.world
  | cons t schedule ih =>
      obtain ⟨hstep, hrest⟩ := h.batch_turn hb t
      exact h.trans hstep (ih hrest)

/-- What each step does is done in the end, in whatever order packages are worked on. -/
theorem turns (h : Rule i n R) (requests : List PackageRequest) (w : World) (schedule : List Turn) :
    R w ((Batch.start i n requests w).turns i n schedule).world := by
  refine h.batch_turns (b := Batch.start i n requests w) (fun x hx => ?_) schedule
  obtain ⟨request, -, rfl⟩ := List.mem_map.1 hx
  exact h.choosing request

end Rule

end Installer

end WebModules
