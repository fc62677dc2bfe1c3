import Mathlib.Data.List.Nodup
import WebModules.Proofs.Basic
import WebModules.Proofs.Schedule.Pipeline

/-!
What is done in a stage: the work on each item once, in the order in which it becomes ready.  The results have the
order of the items.
-/

namespace WebModules.Schedule.Pipeline

variable {σ ε α β ρ : Type}

/-- The work on the item at a place of a stage, with what all items share before and after it. -/
structure Event (σ : Type) where
  stage : Nat
  place : Nat
  before : σ
  after : σ

/-- Events that account for a change, each of which goes on from where the one before it has led to. -/
inductive Linked : σ → List (Event σ) → σ → Prop
  | nil (s : σ) : Linked s [] s
  | cons {e : Event σ} {events : List (Event σ)} {s' : σ} (rest : Linked e.after events s') :
      Linked e.before (e :: events) s'

theorem Linked.append {s s' s'' : σ} {events events' : List (Event σ)} (h : Linked s events s')
    (h' : Linked s' events' s'') : Linked s (events ++ events') s'' := by
  induction h with
  | nil s => exact h'
  | cons rest ih => exact .cons (ih h')

/-- What a stage comes to: the work on each item is done once, and whatever is done in the stage is the work
on an item.  The work with the smaller delay is done first, and of two with the same delay that on the
item that comes first.  The results have the order of the items. -/
structure Performs (stage : Nat) (delay : α → Nat) (turn : α → StateM σ ρ) (items : List α) (s : σ)
    (events : List (Event σ)) (results : List ρ) (s' : σ) : Prop where
  length : results.length = items.length
  once : (events.map Event.place).Perm (List.range items.length)
  linked : Linked s events s'
  effects : ∀ e ∈ events, e.stage = stage ∧ ∃ item result, items[e.place]? = some item ∧
    results[e.place]? = some result ∧ turn item e.before = (result, e.after)
  ready : events.Pairwise fun e e' => ∀ item item', items[e.place]? = some item → items[e'.place]? = some item' →
    delay item < delay item' ∨ delay item = delay item' ∧ e.place < e'.place

/-- What the work on an item comes to is its result, whenever it is done, if that depends on nothing but the item. -/
theorem Performs.results_eq {stage : Nat} {delay : α → Nat} {turn : α → StateM σ ρ} {items : List α} {s s' : σ}
    {events : List (Event σ)} {results : List ρ} (h : Performs stage delay turn items s events results s') {f : α → ρ}
    (hf : ∀ item s, (turn item s).1 = f item) : results = items.map f := by
  apply List.ext_getElem?
  intro place
  by_cases hplace : place < items.length
  · obtain ⟨e, he, rfl⟩ := List.mem_map.1 (h.once.mem_iff.2 (List.mem_range.2 hplace))
    obtain ⟨-, item, result, hitem, hresult, hturn⟩ := h.effects e he
    rw [hresult, List.getElem?_map, hitem, Option.map_some, ← hf item e.before, hturn]
  · rw [List.getElem?_eq_none (by rw [h.length]; omega), List.getElem?_eq_none (by rw [List.length_map]; omega)]

/-- The work on items at their places, in some order. -/
def performed (turn : α → StateM σ ρ) : List (α × Nat) → StateM σ (List (Nat × ρ))
  | [] => return []
  | x :: order => do
    let result ← turn x.1
    let results ← performed turn order
    return (x.2, result) :: results

def eventsOf (stage : Nat) (turn : α → StateM σ ρ) : List (α × Nat) → σ → List (Event σ)
  | [], _ => []
  | x :: order, s => ⟨stage, x.2, s, (turn x.1 s).2⟩ :: eventsOf stage turn order (turn x.1 s).2

variable {stage : Nat} {delay : α → Nat} {turn : α → StateM σ ρ} {items : List α} {order : List (α × Nat)} {s s' : σ}

theorem linked_eventsOf (stage : Nat) (turn : α → StateM σ ρ) (order : List (α × Nat)) (s : σ) :
    Linked s (eventsOf stage turn order s) (performed turn order s).2 := by
  induction order generalizing s with
  | nil => exact .nil s
  | cons x order ih =>
      have hrest := ih (turn x.1 s).2
      exact @Linked.cons σ ⟨stage, x.2, s, (turn x.1 s).2⟩ _ _ hrest

theorem places_eventsOf (stage : Nat) (turn : α → StateM σ ρ) (order : List (α × Nat)) (s : σ) :
    (eventsOf stage turn order s).map Event.place = order.map Prod.snd := by
  induction order generalizing s with
  | nil => rfl
  | cons x order ih => rw [eventsOf, List.map_cons, List.map_cons, ih]

theorem places_performed (turn : α → StateM σ ρ) (order : List (α × Nat)) (s : σ) :
    (performed turn order s).1.map Prod.fst = order.map Prod.snd := by
  induction order generalizing s with
  | nil => rfl
  | cons x order ih =>
      rw [List.map_cons, ← ih (turn x.1 s).2]
      rfl

theorem mem_eventsOf {e : Event σ} (h : e ∈ eventsOf stage turn order s) : e.stage = stage ∧
    ∃ item result, (item, e.place) ∈ order ∧ (e.place, result) ∈ (performed turn order s).1 ∧
      turn item e.before = (result, e.after) := by
  induction order generalizing s with
  | nil => cases h
  | cons x order ih =>
      have hperformed : (performed turn (x :: order) s).1 =
          (x.2, (turn x.1 s).1) :: (performed turn order (turn x.1 s).2).1 := rfl
      rw [hperformed]
      rcases List.mem_cons.1 h with rfl | h
      · exact ⟨rfl, x.1, (turn x.1 s).1, List.mem_cons_self, List.mem_cons_self, rfl⟩
      · obtain ⟨hstage, item, result, hitem, hresult, hturn⟩ := ih h
        exact ⟨hstage, item, result, List.mem_cons_of_mem _ hitem, List.mem_cons_of_mem _ hresult, hturn⟩

theorem getElem?_range_filterMap {f : Nat → Option ρ} {n : Nat} (h : ∀ k, k < n → (f k).isSome) :
    ((List.range n).filterMap f).length = n ∧ ∀ k, k < n → ((List.range n).filterMap f)[k]? = f k := by
  induction n with
  | zero => exact ⟨rfl, fun _ => nofun⟩
  | succ n ih =>
      obtain ⟨hlength, hget⟩ := ih fun k hk => h k (by omega)
      obtain ⟨last, hlast⟩ := Option.isSome_iff_exists.1 (h n (by omega))
      have hsplit : (List.range (n + 1)).filterMap f = (List.range n).filterMap f ++ [last] := by
        rw [List.range_succ, List.filterMap_append]
        simp [hlast]
      rw [hsplit]
      constructor
      · rw [List.length_append, hlength]
        rfl
      · intro k hk
        by_cases heq : k = n
        · rw [heq, List.getElem?_append_right (by omega), hlength, Nat.sub_self, hlast]
          rfl
        · rw [List.getElem?_append_left (by omega)]
          exact hget k (by omega)

theorem performs_of_order (stage : Nat) (turn : α → StateM σ ρ) (s : σ) (hperm : order.Perm items.zipIdx)
    (hready : order.Pairwise fun x y => delay x.1 < delay y.1 ∨ delay x.1 = delay y.1 ∧ x.2 < y.2) :
    Performs stage delay turn items s (eventsOf stage turn order s)
      ((List.range items.length).filterMap fun place => (performed turn order s).1.lookup place)
      (performed turn order s).2 := by
  have hplaces : (order.map Prod.snd).Perm (List.range items.length) := by
    have hindices : items.zipIdx.map Prod.snd = List.range items.length := by
      rw [List.zipIdx_map_snd, List.range_eq_range']
    exact hindices ▸ hperm.map Prod.snd
  have hnodup : ((performed turn order s).1.map Prod.fst).Nodup := by
    rw [places_performed]
    exact hplaces.nodup_iff.2 List.nodup_range
  have hitem {x : α × Nat} (hx : x ∈ order) : items[x.2]? = some x.1 :=
    List.mem_zipIdx_iff_getElem?.1 (hperm.mem_iff.1 hx)
  have hsome (place : Nat) (hp : place < items.length) : ((performed turn order s).1.lookup place).isSome := by
    have hmem : place ∈ (performed turn order s).1.map Prod.fst := by
      rw [places_performed]
      exact hplaces.mem_iff.2 (List.mem_range.2 hp)
    obtain ⟨⟨place, result⟩, hfound, rfl⟩ := List.mem_map.1 hmem
    rw [(lookup_eq_some_iff_mem hnodup).2 hfound]
    rfl
  obtain ⟨hlength, hget⟩ := getElem?_range_filterMap hsome
  constructor
  case length => exact hlength
  case once =>
    rw [places_eventsOf]
    exact hplaces
  case linked => exact linked_eventsOf stage turn order s
  case effects =>
    intro e he
    obtain ⟨hstage, item, result, hmem, hfound, hturn⟩ := mem_eventsOf he
    have hplace := hitem hmem
    refine ⟨hstage, item, result, hplace, ?_, hturn⟩
    rw [hget e.place (List.getElem?_eq_some_iff.1 hplace).1]
    exact (lookup_eq_some_iff_mem hnodup).2 hfound
  case ready =>
    have hpairs : (order.map Prod.snd).Pairwise fun p q => ∀ item item', items[p]? = some item →
        items[q]? = some item' → delay item < delay item' ∨ delay item = delay item' ∧ p < q := by
      rw [List.pairwise_map]
      refine hready.imp_of_mem fun hx hy h item item' hp hq => ?_
      rw [hitem hx] at hp
      rw [hitem hy] at hq
      obtain rfl := Option.some.inj hp
      obtain rfl := Option.some.inj hq
      exact h
    rw [← places_eventsOf stage turn order s, List.pairwise_map] at hpairs
    exact hpairs

/-! The order in which work becomes ready -/

theorem pair_sublist_or {x y : α} {l : List α} (hx : x ∈ l) (hy : y ∈ l) (hne : x ≠ y) :
    [x, y].Sublist l ∨ [y, x].Sublist l := by
  induction l with
  | nil => cases hx
  | cons z l ih =>
      rcases List.mem_cons.1 hx with rfl | hxl
      · have hyl := (List.mem_cons.1 hy).resolve_left hne.symm
        exact .inl ((List.singleton_sublist.2 hyl).cons_cons x)
      · rcases List.mem_cons.1 hy with rfl | hyl
        · exact .inr ((List.singleton_sublist.2 hxl).cons_cons y)
        · exact (ih hxl hyl).imp (.cons z) (.cons z)

theorem not_pair_sublist_both {x y : α} {l : List α} (hn : l.Nodup) (h : [x, y].Sublist l) :
    ¬ [y, x].Sublist l := by
  intro h'
  induction l with
  | nil => cases h
  | cons z l ih => grind

/-- Sorting by a key keeps the order of what has the same key. -/
theorem keyed_mergeSort (key : α → Nat) {before : α → α → Prop} (hirrefl : ∀ x, ¬before x x)
    {l : List α} (h : l.Pairwise before) :
    (l.mergeSort fun x y => key x ≤ key y).Pairwise fun x y =>
      key x < key y ∨ key x = key y ∧ before x y := by
  have htrans (x y z : α) : (decide (key x ≤ key y) = true) → (decide (key y ≤ key z) = true) →
      decide (key x ≤ key z) = true := by
    simp only [decide_eq_true_eq]
    omega
  have htotal (x y : α) : (decide (key x ≤ key y) || decide (key y ≤ key x)) = true := by
    simp only [Bool.or_eq_true, decide_eq_true_eq]
    omega
  have hnodup : l.Nodup := by
    refine h.imp fun hxy heq => ?_
    rw [heq] at hxy
    exact hirrefl _ hxy
  have hperm := List.mergeSort_perm l fun x y => key x ≤ key y
  apply List.pairwise_iff_forall_sublist.2
  intro x y hxy
  have hle := List.pairwise_iff_forall_sublist.1 (List.pairwise_mergeSort htrans htotal l) hxy
  rw [decide_eq_true_eq] at hle
  by_cases hlt : key x < key y
  · exact .inl hlt
  · refine .inr ⟨by omega, ?_⟩
    have hne : x ≠ y := by
      rintro rfl
      exact List.nodup_iff_sublist.1 (hperm.nodup_iff.2 hnodup) x hxy
    have hx : x ∈ l := hperm.mem_iff.1 (hxy.subset List.mem_cons_self)
    have hy : y ∈ l := hperm.mem_iff.1 (hxy.subset (List.mem_cons_of_mem x List.mem_cons_self))
    rcases pair_sublist_or hx hy hne with hbefore | hafter
    · exact List.pairwise_iff_forall_sublist.1 h hbefore
    · -- the order of the list would have been kept
      have hkept := List.pair_sublist_mergeSort htrans htotal (by rw [decide_eq_true_eq]; omega) hafter
      exact absurd hkept (not_pair_sublist_both (hperm.nodup_iff.2 hnodup) hxy)

/-- Of work with the same delay that on the item that comes first is done first. -/
theorem ready_mergeSort (delay : α → Nat) (items : List α) :
    (items.zipIdx.mergeSort fun x y => delay x.1 ≤ delay y.1).Pairwise fun x y =>
      delay x.1 < delay y.1 ∨ delay x.1 = delay y.1 ∧ x.2 < y.2 := by
  have hplaces : items.zipIdx.Pairwise fun x y => x.2 < y.2 := by
    rw [← List.pairwise_map, List.zipIdx_map_snd]
    exact List.pairwise_lt_range'
  exact keyed_mergeSort (fun x => delay x.1) (fun x => Nat.lt_irrefl x.2) hplaces

theorem inOrder_eq (work : α → Work σ ε β) (order : List (α × Nat)) :
    inOrder (order.map fun x => (work x.1).map fun w => (w, x.2)) = performed (fun a => (work a).value) order := by
  induction order with
  | nil => rfl
  | cons x order ih =>
      rw [List.map_cons, inOrder, performed, ih]
      rfl

theorem performs_settle (stage : Nat) (work : α → Work σ ε β) (items : List α) (s : σ) :
    ∃ events, Performs stage (fun a => (work a).delay) (fun a => (work a).value) items s events
      (settle work items s).1 (settle work items s).2 := by
  have hbegun : Timed.byReadiness (items.zipIdx.map fun x => (work x.1).map fun w => (w, x.2)) =
      (items.zipIdx.mergeSort fun x y => (work x.1).delay ≤ (work y.1).delay).map fun x =>
        (work x.1).map fun w => (w, x.2) := by
    rw [Timed.byReadiness, List.map_mergeSort]
    intro x _ y _
    rfl
  have hsettle : settle work items s =
      ((List.range items.length).filterMap fun place => (performed (fun a => (work a).value)
        (items.zipIdx.mergeSort fun x y => (work x.1).delay ≤ (work y.1).delay) s).1.lookup place,
      (performed (fun a => (work a).value)
        (items.zipIdx.mergeSort fun x y => (work x.1).delay ≤ (work y.1).delay) s).2) := by
    unfold settle
    dsimp only
    rw [hbegun, inOrder_eq]
    rfl
  rw [hsettle]
  exact ⟨_, performs_of_order stage _ s (List.mergeSort_perm _ _) (ready_mergeSort (fun a => (work a).delay) items)⟩

theorem performed_zipIdx (turn : α → StateM σ ρ) (items : List α) (start : Nat) :
    performed turn (items.zipIdx start) = do
      let results ← items.mapM turn
      return (results.zipIdx start).map fun r => (r.2, r.1) := by
  induction items generalizing start with
  | nil => rfl
  | cons item items ih =>
      simp only [List.zipIdx_cons, performed, ih, List.mapM_cons, bind_assoc, pure_bind]
      rfl

/-- Work that is done at once is done in the order of the items. -/
theorem performs_mapM (stage : Nat) (turn : α → StateM σ ρ) (items : List α) (s : σ) :
    ∃ events, Performs stage (fun _ => 0) turn items s events (items.mapM turn s).1 (items.mapM turn s).2 := by
  have hready : items.zipIdx.Pairwise fun x y => 0 < 0 ∨ 0 = 0 ∧ x.2 < y.2 := by
    have hplaces : (items.zipIdx.map Prod.snd).Pairwise (· < ·) := by
      rw [List.zipIdx_map_snd]
      exact List.pairwise_lt_range'
    exact (List.pairwise_map.1 hplaces).imp fun h => .inr ⟨rfl, h⟩
  have hperforms : Performs stage (fun _ => 0) turn items s _ _ _ := performs_of_order stage turn s (.refl _) hready
  have hresults : ((List.range items.length).filterMap fun place =>
      (performed turn items.zipIdx s).1.lookup place) = (items.mapM turn s).1 := by
    rw [performed_zipIdx, ← length_mapM turn items s, List.range_eq_range']
    exact lookup_places (items.mapM turn s).1 0
  have hstate : (performed turn items.zipIdx s).2 = (items.mapM turn s).2 := by
    rw [performed_zipIdx]
    rfl
  rw [hresults, hstate] at hperforms
  exact ⟨_, hperforms⟩

end WebModules.Schedule.Pipeline
