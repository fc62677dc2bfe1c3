import Mathlib.Data.List.Forall2
import WebModules.Proofs.Basic
import WebModules.Schedule.Pipeline

/-!
Work that is done at once is done in the order of the items.
-/

namespace WebModules.Schedule.Pipeline

variable {σ ε α β : Type}

theorem lookup_places (results : List β) (start : Nat) :
    (List.range' start results.length).filterMap
      (fun place => ((results.zipIdx start).map fun r => (r.2, r.1)).lookup place) = results := by
  induction results generalizing start with
  | nil => rfl
  | cons r results ih =>
      have hlater (place : Nat) (hp : place ∈ List.range' (start + 1) results.length) :
          (((r :: results).zipIdx start).map fun r => (r.2, r.1)).lookup place =
            ((results.zipIdx (start + 1)).map fun r => (r.2, r.1)).lookup place := by
        have hne : (place == start) = false := by
          rw [List.mem_range'_1] at hp
          simp
          omega
        simp [List.lookup_cons, hne]
      rw [List.length_cons, List.range'_succ, List.filterMap_cons, List.filterMap_congr hlater, ih]
      simp

theorem inOrder_now (work : α → StateM σ (Except ε β)) (items : List α) (start : Nat) :
    inOrder ((items.zipIdx start).map fun item => Timed.now (work item.1, item.2)) = do
      let results ← items.mapM work
      return (results.zipIdx start).map fun r => (r.2, r.1) := by
  induction items generalizing start with
  | nil => rfl
  | cons item items ih =>
      simp only [List.zipIdx_cons, List.map_cons, inOrder, ih, List.mapM_cons, bind_assoc, pure_bind]
      rfl

theorem byReadiness_now (items : List α) : Timed.byReadiness (items.map Timed.now) = items.map Timed.now := by
  refine List.mergeSort_of_pairwise (List.pairwise_map.2 ?_)
  exact List.pairwise_of_forall fun _ _ => by simp [Timed.now]

theorem length_mapM (work : α → StateM σ β) (items : List α) (s : σ) :
    (items.mapM work s).1.length = items.length := by
  induction items generalizing s with
  | nil => rfl
  | cons item items ih =>
      rw [List.mapM_cons]
      exact congrArg (· + 1) (ih _)

/-- What holds of the work on each item, in any state that all the work keeps, holds of all results. -/
theorem forall₂_mapM {I : σ → Prop} {R : α → β → Prop} (work : α → StateM σ β) (items : List α)
    (h : ∀ item ∈ items, ∀ s, I s → I (work item s).2 ∧ R item (work item s).1) {s : σ} (hs : I s) :
    I (items.mapM work s).2 ∧ List.Forall₂ R items (items.mapM work s).1 := by
  induction items generalizing s with
  | nil => exact ⟨hs, .nil⟩
  | cons item items ih =>
      obtain ⟨hkept, hfirst⟩ := h item List.mem_cons_self s hs
      obtain ⟨hend, hrest⟩ := ih (fun next hnext => h next (List.mem_cons_of_mem _ hnext)) hkept
      rw [List.mapM_cons]
      exact ⟨hend, .cons hfirst hrest⟩

/-- All work is done in the order of the items, and its results keep that order. -/
theorem settle_now (work : α → StateM σ (Except ε β)) (items : List α) :
    settle (fun item => Work.now (work item)) items = items.mapM work := by
  have hbegun : (items.zipIdx.map fun item =>
      (Work.now (work item.1)).map fun w => (w, item.2)) =
        (items.zipIdx.map fun item => (work item.1, item.2)).map Timed.now := by
    rw [List.map_map]
    rfl
  have hplaces (results : List (Except ε β)) (hr : results.length = items.length) :
      (List.range items.length).filterMap
        (fun place => ((results.zipIdx 0).map fun r => (r.2, r.1)).lookup place) = results := by
    rw [← hr, List.range_eq_range']
    exact lookup_places results 0
  have horder : inOrder ((items.zipIdx.map fun item => (work item.1, item.2)).map Timed.now) = do
      let results ← items.mapM work
      return (results.zipIdx 0).map fun r => (r.2, r.1) := by
    rw [List.map_map]
    exact inOrder_now work items 0
  funext s
  unfold settle
  dsimp only
  rw [hbegun, byReadiness_now, horder, bind_assoc]
  exact Prod.ext (hplaces _ (length_mapM work items s)) rfl

theorem map_now (work : α → StateM σ (Except ε β)) (items : List α) :
    map (fun item => Work.now (work item)) items = do return collect (← items.mapM work) := by
  rw [map, settle_now]

theorem collect_eq_ok {results : List (Except ε β)} {values : List β} (h : collect results = .ok values) :
    results = values.map .ok := by
  induction results generalizing values with
  | nil =>
      cases h
      rfl
  | cons result results ih =>
      cases result with
      | error e => cases h
      | ok value =>
          obtain ⟨others, hcollect, rfl⟩ := map_eq_ok h
          rw [ih hcollect, List.map_cons]

theorem collect_map_ok (values : List β) : collect (values.map (.ok : β → Except ε β)) = .ok values := by
  induction values with
  | nil => rfl
  | cons value values ih =>
      rw [List.map_cons, collect, ih]
      rfl

theorem mem_of_collect_eq_error {results : List (Except ε β)} {e : ε} (h : collect results = .error e) :
    .error e ∈ results := by
  induction results with
  | nil => cases h
  | cons result results ih =>
      cases result with
      | error failure =>
          cases h
          exact List.mem_cons_self
      | ok value => exact List.mem_cons_of_mem _ (ih (map_eq_error h))

/-- Work on one item after the other that succeeds each time. -/
inductive Runs (work : α → StateM σ (Except ε β)) : List α → List β → σ → σ → Prop
  | nil (s : σ) : Runs work [] [] s s
  | cons {item : α} {items : List α} {value : β} {values : List β} {s s' s'' : σ}
      (first : work item s = (.ok value, s')) (rest : Runs work items values s' s'') :
      Runs work (item :: items) (value :: values) s s''

/-- Work on one item after the other, whether it succeeds or not. -/
inductive Settles (work : α → StateM σ (Except ε β)) : List α → List (Except ε β) → σ → σ → Prop
  | nil (s : σ) : Settles work [] [] s s
  | cons {item : α} {items : List α} {result : Except ε β} {results : List (Except ε β)} {s s' s'' : σ}
      (first : work item s = (result, s')) (rest : Settles work items results s' s'') :
      Settles work (item :: items) (result :: results) s s''

theorem settles_mapM (work : α → StateM σ (Except ε β)) (items : List α) (s : σ) :
    Settles work items (items.mapM work s).1 s (items.mapM work s).2 := by
  induction items generalizing s with
  | nil => exact .nil s
  | cons item items ih =>
      rw [List.mapM_cons]
      exact .cons rfl (ih _)

/-- If all work succeeds, each item is worked on where the work on those before it has led to. -/
theorem Settles.runs {work : α → StateM σ (Except ε β)} {items : List α} {results : List (Except ε β)}
    {values : List β} {s s' : σ} (h : Settles work items results s s') (hc : collect results = .ok values) :
    Runs work items values s s' := by
  induction h generalizing values with
  | nil s =>
      cases hc
      exact .nil s
  | @cons item items result results s s' s'' first rest ih =>
      cases result with
      | error e => cases hc
      | ok value =>
          obtain ⟨others, hcollect, rfl⟩ := map_eq_ok hc
          exact .cons first (ih hcollect)

theorem Runs.settles {work : α → StateM σ (Except ε β)} {items : List α} {values : List β} {s s' : σ}
    (h : Runs work items values s s') : Settles work items (values.map .ok) s s' := by
  induction h with
  | nil s => exact .nil s
  | cons first rest ih => exact .cons first ih

theorem Settles.relates {R : σ → σ → Prop} (hrefl : ∀ s, R s s) (htrans : ∀ s s' s'', R s s' → R s' s'' → R s s'')
    {work : α → StateM σ (Except ε β)} {items : List α} {results : List (Except ε β)} {s s' : σ}
    (h : Settles work items results s s') (hwork : ∀ item ∈ items, ∀ s, R s (work item s).2) : R s s' := by
  induction h with
  | nil s => exact hrefl s
  | @cons item items result results s s' s'' first rest ih =>
      have hfirst := hwork item List.mem_cons_self s
      rw [first] at hfirst
      exact htrans _ _ _ hfirst (ih fun next hn => hwork next (List.mem_cons_of_mem _ hn))

/-- Each result is that of the work on an item, in a state that has what all the work keeps. -/
theorem Settles.exists_of_mem {I : σ → Prop} {work : α → StateM σ (Except ε β)} {items : List α}
    {results : List (Except ε β)} {s s' : σ} (h : Settles work items results s s') (hs : I s)
    (hwork : ∀ item ∈ items, ∀ s, I s → I (work item s).2) {result : Except ε β} (hm : result ∈ results) :
    ∃ item ∈ items, ∃ before, I before ∧ (work item before).1 = result := by
  induction h with
  | nil s => cases hm
  | @cons item items first results s s' s'' hfirst rest ih =>
      rcases List.mem_cons.1 hm with rfl | hm
      · exact ⟨item, List.mem_cons_self, s, hs, congrArg Prod.fst hfirst⟩
      · have hkept := hwork item List.mem_cons_self s hs
        rw [hfirst] at hkept
        obtain ⟨next, hnext, hturn⟩ := ih hkept (fun next hn => hwork next (List.mem_cons_of_mem _ hn)) hm
        exact ⟨next, List.mem_cons_of_mem _ hnext, hturn⟩

theorem Settles.exists_turn {work : α → StateM σ (Except ε β)} {items : List α} {results : List (Except ε β)} {s s' : σ}
    (h : Settles work items results s s') {item : α} (hm : item ∈ items) :
    ∃ before after result left right, work item before = (result, after) ∧ (item, result) ∈ items.zip results ∧
      Settles work left right after s' := by
  induction h with
  | nil s => cases hm
  | @cons first items result results s s' s'' hfirst rest ih =>
      rcases List.mem_cons.1 hm with rfl | hm
      · exact ⟨s, s', result, items, results, hfirst, List.mem_cons_self, rest⟩
      · obtain ⟨before, after, found, left, right, hturn, hzip, hrest⟩ := ih hm
        exact ⟨before, after, found, left, right, hturn, List.mem_cons_of_mem _ hzip, hrest⟩

end WebModules.Schedule.Pipeline
