import Mathlib.Data.List.Forall2
import Mathlib.Logic.Relation
import WebModules.Proofs.Basic

/-!
Work that is done in steps.  Others may change what all of them share between two steps, but as long
as everyone keeps to the same rules, each task comes to a result of its kind.
-/

namespace WebModules.Schedule

/-- Work that is done, or that changes what is shared and then goes on with what it has found there. -/
inductive Task (σ α : Type)
  | done (a : α)
  | step (change : σ → σ) (next : σ → Task σ α)

namespace Task

variable {σ α β : Type}

def bind : Task σ α → (α → Task σ β) → Task σ β
  | done a, f => f a
  | step change next, f => step change fun s => (next s).bind f

instance : Monad (Task σ) where
  pure := done
  bind := bind

instance : LawfulMonad (Task σ) := by
  have hid {α : Type} (task : Task σ α) : task.bind (done ∘ id) = task := by
    induction task with
    | done a => rfl
    | step change next ih => exact congrArg (step change) (funext ih)
  have hassoc {α β γ : Type} (task : Task σ α) (f : α → Task σ β) (g : β → Task σ γ) :
      (task.bind f).bind g = task.bind fun a => (f a).bind g := by
    induction task with
    | done a => rfl
    | step change next ih => exact congrArg (step change) (funext ih)
  exact LawfulMonad.mk' _ hid (fun _ _ => rfl) hassoc

/-- Work that no one else interrupts. -/
def once (work : StateM σ α) : Task σ α := step (fun s => (work s).2) fun s => done (work s).1

/-- A task that is done while no one else does anything. -/
def alone : Task σ α → StateM σ α
  | done a => pure a
  | step change next => fun s => (next s).alone (change s)

theorem alone_once (work : StateM σ α) : (once work).alone = work := rfl

theorem alone_bind (task : Task σ α) (f : α → Task σ β) :
    (task >>= f).alone = task.alone >>= fun a => (f a).alone := by
  induction task with
  | done a => rfl
  | step change next ih => exact funext fun s => congrFun (ih s) (change s)

theorem alone_mapM {items : List β} (work : β → Task σ α) :
    (items.mapM work).alone = items.mapM fun item => (work item).alone := by
  induction items with
  | nil => rfl
  | cons item items ih =>
      rw [List.mapM_cons, List.mapM_cons, alone_bind]
      refine congrArg _ (funext fun a => ?_)
      rw [alone_bind, ih]
      rfl

/-! Tasks that go on together -/

def result? : Task σ α → Option α
  | done a => some a
  | step .. => none

/-- The results of tasks that are all done. -/
def results? (tasks : List (Task σ α)) : Option (List α) := tasks.mapM result?

/-- A turn of one of some tasks. -/
def turn (tasks : List (Task σ α)) (place : Nat) (s : σ) : List (Task σ α) × σ :=
  match tasks[place]? with
  | some (step change next) => (tasks.set place (next s), change s)
  | _ => (tasks, s)

theorem results?_cons (task : Task σ α) (tasks : List (Task σ α)) :
    results? (task :: tasks) = task.result?.bind fun a => (results? tasks).map (a :: ·) := by
  rw [results?, List.mapM_cons]
  cases task.result? with
  | none => rfl
  | some a =>
      change (results? tasks).bind (fun as => some (a :: as)) = _
      cases results? tasks <;> rfl

theorem results?_eq_none {tasks : List (Task σ α)} {task : Task σ α} (h : task ∈ tasks) (hr : task.result? = none) :
    results? tasks = none := by
  induction tasks with
  | nil => cases h
  | cons first tasks ih =>
      rw [results?_cons]
      rcases List.mem_cons.1 h with rfl | h
      · rw [hr, Option.bind_none]
      · rw [ih h]
        cases first.result? <;> rfl

theorem results?_done (results : List α) : results? (results.map (done : α → Task σ α)) = some results := by
  induction results with
  | nil => rfl
  | cons a results ih =>
      rw [List.map_cons, results?_cons, ih]
      rfl

theorem eq_map_of_results? {tasks : List (Task σ α)} {results : List α} (h : results? tasks = some results) :
    tasks = results.map done := by
  induction tasks generalizing results with
  | nil =>
      obtain rfl := Option.some.inj h
      rfl
  | cons task tasks ih =>
      rw [results?_cons, Option.bind_eq_some_iff] at h
      obtain ⟨a, ha, hmap⟩ := h
      obtain ⟨others, hothers, rfl⟩ := Option.map_eq_some_iff.1 hmap
      cases task with
      | done a' =>
          obtain rfl := Option.some.inj ha
          rw [ih hothers, List.map_cons]
      | step => cases ha

/-- A turn that is taken while not all tasks are done. -/
def Turns (before after : List (Task σ α) × σ) : Prop :=
  results? before.1 = none ∧ ∃ place, after = turn before.1 place before.2

theorem turns_alone (finished : List α) (task : Task σ α) (others : List (Task σ α)) (s : σ) :
    Relation.ReflTransGen Turns (finished.map done ++ task :: others, s)
      (finished.map done ++ done (task.alone s).1 :: others, (task.alone s).2) := by
  induction task generalizing s with
  | done a => exact .refl
  | step change next ih =>
      have hmem : step change next ∈ finished.map done ++ step change next :: others := by simp
      refine .head ⟨results?_eq_none hmem rfl, finished.length, ?_⟩ (ih s (change s))
      simp [turn]

theorem turns_mapM (finished : List α) (tasks : List (Task σ α)) (s : σ) :
    Relation.ReflTransGen Turns (finished.map done ++ tasks, s)
      ((finished ++ (tasks.mapM alone s).1).map done, (tasks.mapM alone s).2) := by
  induction tasks generalizing finished s with
  | nil =>
      rw [List.mapM_nil, List.append_nil]
      change Relation.ReflTransGen Turns _ ((finished ++ []).map done, s)
      rw [List.append_nil]
  | cons task tasks ih =>
      have hrest := ih (finished ++ [(task.alone s).1]) (task.alone s).2
      rw [List.map_append, List.append_assoc, List.append_assoc] at hrest
      rw [List.mapM_cons]
      exact (turns_alone finished task tasks s).trans hrest

/-! Rules -/

/-- A task whose steps and result keep to rules, as long as what is shared is as all rely on. -/
inductive Meets (rely : σ → Prop) (step : σ → σ → Prop) (result : α → Prop) : Task σ α → Prop
  | done {a : α} (holds : result a) : Meets rely step result (.done a)
  | step {change : σ → σ} {next : σ → Task σ α} (keeps : ∀ s, rely s → step s (change s))
      (rest : ∀ s, rely s → Meets rely step result (next s)) : Meets rely step result (.step change next)

variable {I : σ → Prop} {R : σ → σ → Prop} {P : α → Prop} {Q : β → Prop}

namespace Meets

theorem pure {a : α} (h : P a) : Meets I R P (Pure.pure a) := .done h

theorem once {work : StateM σ α} (h : ∀ s, I s → R s (work s).2 ∧ P (work s).1) : Meets I R P (once work) :=
  .step (fun s hs => (h s hs).1) fun s hs => .done (h s hs).2

theorem bind {task : Task σ α} (h : Meets I R P task) {f : α → Task σ β} (hf : ∀ a, P a → Meets I R Q (f a)) :
    Meets I R Q (task >>= f) := by
  induction h with
  | done holds => exact hf _ holds
  | step keeps rest ih => exact .step keeps ih

theorem mapM {items : List β} {work : β → Task σ α} {f : β → α}
    (h : ∀ item ∈ items, Meets I R (· = f item) (work item)) : Meets I R (· = items.map f) (items.mapM work) := by
  induction items with
  | nil => exact .pure rfl
  | cons item items ih =>
      rw [List.mapM_cons]
      have hrest := ih fun next hnext => h next (List.mem_cons_of_mem _ hnext)
      refine (h item List.mem_cons_self).bind fun a ha => hrest.bind fun results hresults => .pure ?_
      rw [ha, hresults, List.map_cons]

theorem mapM_forall {items : List β} {work : β → Task σ α} (h : ∀ item ∈ items, Meets I R P (work item)) :
    Meets I R (fun results => ∀ a ∈ results, P a) (items.mapM work) := by
  induction items with
  | nil => exact .pure (by simp)
  | cons item items ih =>
      rw [List.mapM_cons]
      have hrest := ih fun next hnext => h next (List.mem_cons_of_mem _ hnext)
      refine (h item List.mem_cons_self).bind fun a ha => hrest.bind fun results hresults => ?_
      exact .pure (List.forall_mem_cons.2 ⟨ha, hresults⟩)

theorem result {a : α} (h : Meets I R P (.done a)) : P a := by
  cases h with
  | done holds => exact holds

theorem results {tasks : List (Task σ α)} {results : List α} (h : ∀ task ∈ tasks, Meets I R P task)
    (hr : results? tasks = some results) : ∀ a ∈ results, P a := by
  rw [eq_map_of_results? hr] at h
  exact fun a ha => (h _ (List.mem_map_of_mem ha)).result

end Meets

theorem turn_cases (tasks : List (Task σ α)) (place : Nat) (s : σ) : turn tasks place s = (tasks, s) ∨
    ∃ change next, tasks[place]? = some (.step change next) ∧
      turn tasks place s = (tasks.set place (next s), change s) := by
  rw [turn]
  split
  · rename_i change next h
    exact .inr ⟨change, next, h, rfl⟩
  · exact .inl rfl

theorem Meets.turn {tasks : List (Task σ α)} {s : σ} (h : ∀ task ∈ tasks, Meets I R P task) (hrefl : R s s) (hs : I s)
    (place : Nat) : R s (turn tasks place s).2 ∧ ∀ task ∈ (turn tasks place s).1, Meets I R P task := by
  rcases turn_cases tasks place s with hturn | ⟨change, next, htask, hturn⟩
  · rw [hturn]
    exact ⟨hrefl, h⟩
  · rw [hturn]
    cases h _ (List.mem_of_getElem? htask) with
    | step keeps rest =>
        refine ⟨keeps s hs, fun task hmem => ?_⟩
        rcases List.mem_or_eq_of_mem_set hmem with hmem | rfl
        · exact h task hmem
        · exact rest s hs

theorem exists_of_forall₂ {R : β → Task σ α → Prop} {items : List β} {tasks : List (Task σ α)}
    (h : List.Forall₂ R items tasks) {task : Task σ α} (ht : task ∈ tasks) : ∃ item ∈ items, R item task := by
  induction h with
  | nil => cases ht
  | cons head rest ih =>
      rcases List.mem_cons.1 ht with rfl | ht
      · exact ⟨_, List.mem_cons_self, head⟩
      · obtain ⟨item, hitem, hr⟩ := ih ht
        exact ⟨item, List.mem_cons_of_mem _ hitem, hr⟩

theorem forall₂_set {R R' : β → Task σ α → Prop} {items : List β} {tasks : List (Task σ α)} {place : Nat}
    {task task' : Task σ α} (h : List.Forall₂ R items tasks) (ht : tasks[place]? = some task)
    (hkeep : ∀ item task, R item task → R' item task) (hset : ∀ item ∈ items, R item task → R' item task') :
    List.Forall₂ R' items (tasks.set place task') := by
  induction h generalizing place with
  | nil => simp at ht
  | cons head rest ih =>
      cases place with
      | zero =>
          obtain rfl := Option.some.inj ht
          exact .cons (hset _ List.mem_cons_self head) (rest.imp hkeep)
      | succ place =>
          exact .cons (hkeep _ _ head) (ih ht fun item hitem => hset item (List.mem_cons_of_mem _ hitem))

/-- What holds of some tasks holds after a turn of one of them, if everyone's steps keep it. -/
theorem forall₂_turn {R : σ → β → Task σ α → Prop} {S : σ → σ → Prop} {s : σ} {items : List β}
    {tasks : List (Task σ α)} (hrefl : S s s) (hkeep : ∀ s' item task, S s s' → R s item task → R s' item task)
    (hstep : ∀ item ∈ items, ∀ change next, R s item (.step change next) →
      S s (change s) ∧ R (change s) item (next s))
    (h : List.Forall₂ (R s) items tasks) (place : Nat) :
    S s (turn tasks place s).2 ∧ List.Forall₂ (R (turn tasks place s).2) items (turn tasks place s).1 := by
  rcases turn_cases tasks place s with hturn | ⟨change, next, htask, hturn⟩
  · rw [hturn]
    exact ⟨hrefl, h⟩
  · rw [hturn]
    obtain ⟨item, hitem, hr⟩ := exists_of_forall₂ h (List.mem_of_getElem? htask)
    obtain ⟨hs, -⟩ := hstep item hitem change next hr
    exact ⟨hs, forall₂_set h htask (fun item task => hkeep _ item task hs)
      fun item hitem hr => (hstep item hitem change next hr).2⟩

theorem meets_turn {P : β → α → Prop} {items : List β} {tasks : List (Task σ α)} {s : σ} (hs : items ≠ [] → I s)
    (hrefl : R s s) (h : List.Forall₂ (fun item => Meets I R (P item)) items tasks) (place : Nat) :
    R s (turn tasks place s).2 ∧ List.Forall₂ (fun item => Meets I R (P item)) items (turn tasks place s).1 := by
  refine forall₂_turn (R := fun _ item => Meets I R (P item)) hrefl (fun _ _ _ _ => id)
    (fun item hitem change next hstep => ?_) h place
  have hs := hs (List.ne_nil_of_mem hitem)
  cases hstep with
  | step keeps rest => exact ⟨keeps s hs, rest s hs⟩

end Task

end WebModules.Schedule
