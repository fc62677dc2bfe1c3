import WebModules.Proofs.Schedule.Performs

/-!
Chains of stages.  What is done in one stage is done before anything is done in the next one; a stage comes to the
first failure in the order of its items, and nothing is done after a stage that has failed.
-/

namespace WebModules.Schedule.Pipeline

variable {σ ε α β γ ρ : Type}

/-- Stages one after the other, which may change what the items are. -/
inductive Chain (σ ε : Type) : Type → Type → Type 1
  | done {α : Type} : Chain σ ε α α
  | map {α β γ : Type} (work : α → Work σ ε β) (rest : Chain σ ε β γ) : Chain σ ε α γ
  | flatMap {α β γ : Type} (work : α → Work σ ε (List β)) (rest : Chain σ ε β γ) : Chain σ ε α γ
  | filter {α γ : Type} (test : α → StateM σ Bool) (rest : Chain σ ε α γ) : Chain σ ε α γ
  | inspect {α γ : Type} (look : α → StateM σ Unit) (rest : Chain σ ε α γ) : Chain σ ε α γ

namespace Chain

/-- What a chain makes of what has been passed on to it.  Nothing is done if that is a failure. -/
def runFrom {α γ : Type} : Chain σ ε α γ → Except ε (List α) → StateM σ (Except ε (List γ))
  | _, .error e => return .error e
  | done, .ok items => return .ok items
  | map work rest, .ok items => do rest.runFrom (← Pipeline.map work items)
  | flatMap work rest, .ok items => do rest.runFrom (← Pipeline.flatMap work items)
  | filter test rest, .ok items => do rest.runFrom (.ok (← Pipeline.filter test items))
  | inspect look rest, .ok items => do
    Pipeline.inspect look items
    rest.runFrom (.ok items)

def run (c : Chain σ ε α γ) (items : List α) : StateM σ (Except ε (List γ)) := c.runFrom (.ok items)

/-- Stages for items that stay of one kind. -/
def ofStages : List (Stage σ ε α) → Chain σ ε α α
  | [] => done
  | .map work :: stages => .map work (ofStages stages)
  | .flatMap work :: stages => .flatMap work (ofStages stages)
  | .filter test :: stages => .filter test (ofStages stages)
  | .inspect look :: stages => .inspect look (ofStages stages)

theorem runFrom_error (c : Chain σ ε α γ) (e : ε) : c.runFrom (.error e) = pure (.error e) := by
  cases c <;> rfl

theorem run_ofStages (stages : List (Stage σ ε α)) (items : List α) :
    (ofStages stages).run items = Stage.runAll items stages := by
  induction stages generalizing items with
  | nil => rfl
  | cons stage stages ih =>
      cases stage with
      | map work | flatMap work =>
          refine congrArg _ (funext fun passed => ?_)
          cases passed with
          | ok items => exact ih items
          | error e => exact runFrom_error _ e
      | filter test =>
          rw [Stage.runAll, Stage.run, bind_assoc]
          refine congrArg _ (funext fun kept => ?_)
          rw [pure_bind]
          exact ih kept
      | inspect look =>
          rw [Stage.runAll, Stage.run, bind_assoc]
          refine congrArg _ (funext fun _ => ?_)
          rw [pure_bind]
          exact ih items

end Chain

/-! What a stage passes on -/

/-- What the results of a stage come to: all values, or the first failure in the order of the items. -/
inductive Passes : List (Except ε β) → Except ε (List β) → Prop
  | all (values : List β) : Passes (values.map .ok) (.ok values)
  | first (values : List β) (e : ε) (others : List (Except ε β)) :
      Passes (values.map .ok ++ .error e :: others) (.error e)

theorem passes_collect (results : List (Except ε β)) : Passes results (collect results) := by
  induction results with
  | nil => exact .all []
  | cons result results ih =>
      cases result with
      | error e => exact .first [] e results
      | ok value =>
          rw [collect]
          generalize collect results = passed at ih
          cases ih with
          | all values => exact .all (value :: values)
          | first values e others => exact .first (value :: values) e others

theorem collect_first (values : List β) (e : ε) (others : List (Except ε β)) :
    collect (values.map .ok ++ .error e :: others) = .error e := by
  induction values with
  | nil => rfl
  | cons value values ih =>
      rw [List.map_cons, List.cons_append, collect, ih]
      rfl

theorem Passes.eq_collect {results : List (Except ε β)} {passed : Except ε (List β)} (h : Passes results passed) :
    passed = collect results := by
  cases h with
  | all values => exact (collect_map_ok values).symm
  | first values e others => exact (collect_first values e others).symm

/-- The items that are kept. -/
def kept (items : List α) (keeps : List Bool) : List α := ((items.zip keeps).filter Prod.snd).map Prod.fst

theorem filter_eq (test : α → StateM σ Bool) (items : List α) :
    Pipeline.filter test items = do return kept items (← items.mapM test) := by
  induction items with
  | nil => rfl
  | cons item items ih =>
      rw [Pipeline.filter, List.mapM_cons, ih, bind_assoc]
      refine congrArg _ (funext fun keep => ?_)
      simp only [bind_assoc, pure_bind]
      refine congrArg _ (funext fun keeps => ?_)
      cases keep <;> simp [kept]

theorem inspect_apply (look : α → StateM σ Unit) (items : List α) (s : σ) :
    Pipeline.inspect look items s = ((), (items.mapM look s).2) := by
  induction items generalizing s with
  | nil => rfl
  | cons item items ih =>
      rw [Pipeline.inspect, List.mapM_cons]
      exact ih (look item s).2

/-! Runs -/

namespace Chain

/-- What is done in the stages of a chain, counted from a number, and what it comes to.  If there are no items
because a stage has failed, nothing is done. -/
inductive Follows {γ : Type} : {α : Type} → Nat → Chain σ ε α γ → Except ε (List α) → σ → List (Event σ) →
    Except ε (List γ) → σ → Prop
  | failed {α : Type} {stage : Nat} {c : Chain σ ε α γ} {e : ε} {s : σ} :
      Follows stage c (.error e) s [] (.error e) s
  | done {stage : Nat} {items : List γ} {s : σ} : Follows stage .done (.ok items) s [] (.ok items) s
  | map {α β : Type} {stage : Nat} {work : α → Work σ ε β} {rest : Chain σ ε β γ} {items : List α}
      {results : List (Except ε β)} {passed : Except ε (List β)} {events later : List (Event σ)}
      {outcome : Except ε (List γ)} {s s' s'' : σ}
      (performs : Performs stage (fun a => (work a).delay) (fun a => (work a).value) items s events results s')
      (passes : Passes results passed) (goesOn : Follows (stage + 1) rest passed s' later outcome s'') :
      Follows stage (.map work rest) (.ok items) s (events ++ later) outcome s''
  | flatMap {α β : Type} {stage : Nat} {work : α → Work σ ε (List β)} {rest : Chain σ ε β γ} {items : List α}
      {results : List (Except ε (List β))} {passed : Except ε (List (List β))} {events later : List (Event σ)}
      {outcome : Except ε (List γ)} {s s' s'' : σ}
      (performs : Performs stage (fun a => (work a).delay) (fun a => (work a).value) items s events results s')
      (passes : Passes results passed)
      (goesOn : Follows (stage + 1) rest (passed.map List.flatten) s' later outcome s'') :
      Follows stage (.flatMap work rest) (.ok items) s (events ++ later) outcome s''
  | filter {α : Type} {stage : Nat} {test : α → StateM σ Bool} {rest : Chain σ ε α γ} {items : List α}
      {keeps : List Bool} {events later : List (Event σ)} {outcome : Except ε (List γ)} {s s' s'' : σ}
      (performs : Performs stage (fun _ => 0) test items s events keeps s')
      (goesOn : Follows (stage + 1) rest (.ok (kept items keeps)) s' later outcome s'') :
      Follows stage (.filter test rest) (.ok items) s (events ++ later) outcome s''
  | inspect {α : Type} {stage : Nat} {look : α → StateM σ Unit} {rest : Chain σ ε α γ} {items : List α}
      {looks : List Unit} {events later : List (Event σ)} {outcome : Except ε (List γ)} {s s' s'' : σ}
      (performs : Performs stage (fun _ => 0) look items s events looks s')
      (goesOn : Follows (stage + 1) rest (.ok items) s' later outcome s'') :
      Follows stage (.inspect look rest) (.ok items) s (events ++ later) outcome s''

theorem follows_runFrom (c : Chain σ ε α γ) (stage : Nat) (passed : Except ε (List α)) (s : σ) :
    ∃ events, Follows stage c passed s events (c.runFrom passed s).1 (c.runFrom passed s).2 := by
  induction c generalizing stage s with
  | done =>
      cases passed with
      | error e => exact ⟨[], .failed⟩
      | ok items => exact ⟨[], .done⟩
  | map work rest ih =>
      cases passed with
      | error e => exact ⟨[], .failed⟩
      | ok items =>
          obtain ⟨events, hperforms⟩ := performs_settle stage work items s
          obtain ⟨later, hlater⟩ := ih (stage + 1) (collect (settle work items s).1) (settle work items s).2
          exact ⟨events ++ later, .map hperforms (passes_collect _) hlater⟩
  | flatMap work rest ih =>
      cases passed with
      | error e => exact ⟨[], .failed⟩
      | ok items =>
          obtain ⟨events, hperforms⟩ := performs_settle stage work items s
          obtain ⟨later, hlater⟩ := ih (stage + 1) ((collect (settle work items s).1).map List.flatten)
            (settle work items s).2
          exact ⟨events ++ later, .flatMap hperforms (passes_collect _) hlater⟩
  | filter test rest ih =>
      cases passed with
      | error e => exact ⟨[], .failed⟩
      | ok items =>
          obtain ⟨events, hperforms⟩ := performs_mapM stage test items s
          obtain ⟨later, hlater⟩ := ih (stage + 1) (.ok (kept items (items.mapM test s).1)) (items.mapM test s).2
          refine ⟨events ++ later, ?_⟩
          have hfollows := Follows.filter hperforms hlater
          rw [runFrom, filter_eq]
          exact hfollows
  | inspect look rest ih =>
      cases passed with
      | error e => exact ⟨[], .failed⟩
      | ok items =>
          obtain ⟨events, hperforms⟩ := performs_mapM stage look items s
          obtain ⟨later, hlater⟩ := ih (stage + 1) (.ok items) (items.mapM look s).2
          refine ⟨events ++ later, ?_⟩
          have hrun : (inspect look rest).runFrom (.ok items) s = rest.runFrom (.ok items) (items.mapM look s).2 := by
            change rest.runFrom (.ok items) (Pipeline.inspect look items s).2 = _
            rw [inspect_apply]
          rw [hrun]
          exact .inspect hperforms hlater

section

variable {stage : Nat} {c : Chain σ ε α γ} {passed : Except ε (List α)} {s s' : σ} {events : List (Event σ)}
  {outcome : Except ε (List γ)}

theorem Follows.linked (h : Follows stage c passed s events outcome s') : Linked s events s' := by
  induction h with
  | failed => exact .nil _
  | done => exact .nil _
  | map performs _ _ ih => exact performs.linked.append ih
  | flatMap performs _ _ ih => exact performs.linked.append ih
  | filter performs _ ih => exact performs.linked.append ih
  | inspect performs _ ih => exact performs.linked.append ih

theorem Follows.stage_le (h : Follows stage c passed s events outcome s') : ∀ e ∈ events, stage ≤ e.stage := by
  have hsplit {own later : List (Event σ)} {stage : Nat} (hown : ∀ e ∈ own, e.stage = stage)
      (hlater : ∀ e ∈ later, stage + 1 ≤ e.stage) : ∀ e ∈ own ++ later, stage ≤ e.stage := by
    intro e he
    rcases List.mem_append.1 he with he | he
    · exact Nat.le_of_eq (hown e he).symm
    · exact Nat.le_of_succ_le (hlater e he)
  induction h with
  | failed => exact fun _ => nofun
  | done => exact fun _ => nofun
  | map performs _ _ ih => exact hsplit (fun e he => (performs.effects e he).1) ih
  | flatMap performs _ _ ih => exact hsplit (fun e he => (performs.effects e he).1) ih
  | filter performs _ ih => exact hsplit (fun e he => (performs.effects e he).1) ih
  | inspect performs _ ih => exact hsplit (fun e he => (performs.effects e he).1) ih

/-- No stage is begun before the one before it has come to its end. -/
theorem Follows.ordered (h : Follows stage c passed s events outcome s') :
    events.Pairwise fun e e' => e.stage < e'.stage ∨ e.stage = e'.stage ∧ e.place ≠ e'.place := by
  have hsplit {ρ α : Type} {delay : α → Nat} {turn : α → StateM σ ρ} {items : List α} {results : List ρ} {s s' : σ}
      {own later : List (Event σ)} {stage : Nat} (hown : Performs stage delay turn items s own results s')
      (hlater : ∀ e ∈ later, stage + 1 ≤ e.stage)
      (hordered : later.Pairwise fun e e' => e.stage < e'.stage ∨ e.stage = e'.stage ∧ e.place ≠ e'.place) :
      (own ++ later).Pairwise fun e e' => e.stage < e'.stage ∨ e.stage = e'.stage ∧ e.place ≠ e'.place := by
    apply List.pairwise_append.2
    refine ⟨?_, hordered, fun e he e' he' => ?_⟩
    · have hplaces : (own.map Event.place).Nodup := hown.once.nodup_iff.2 List.nodup_range
      refine (List.pairwise_map.1 hplaces).imp_of_mem fun he he' hne => .inr ⟨?_, hne⟩
      rw [(hown.effects _ he).1, (hown.effects _ he').1]
    · rw [(hown.effects e he).1]
      exact .inl (hlater e' he')
  induction h with
  | failed => exact .nil
  | done => exact .nil
  | map performs _ goesOn ih => exact hsplit performs goesOn.stage_le ih
  | flatMap performs _ goesOn ih => exact hsplit performs goesOn.stage_le ih
  | filter performs goesOn ih => exact hsplit performs goesOn.stage_le ih
  | inspect performs goesOn ih => exact hsplit performs goesOn.stage_le ih

end

/-! Outcomes that do not depend on when the work is done -/

/-- What a chain makes of its items if what the work on an item comes to depends on nothing but the item. -/
inductive Means {γ : Type} : {α : Type} → Chain σ ε α γ → (List α → Except ε (List γ)) → Prop
  | done : Means .done .ok
  | map {α β : Type} {work : α → Work σ ε β} {f : α → Except ε β} {rest : Chain σ ε β γ}
      {g : List β → Except ε (List γ)} (gives : ∀ item s, ((work item).value s).1 = f item) (goesOn : Means rest g) :
      Means (.map work rest) fun items => items.mapM f >>= g
  | flatMap {α β : Type} {work : α → Work σ ε (List β)} {f : α → Except ε (List β)} {rest : Chain σ ε β γ}
      {g : List β → Except ε (List γ)} (gives : ∀ item s, ((work item).value s).1 = f item) (goesOn : Means rest g) :
      Means (.flatMap work rest) fun items => items.mapM f >>= fun values => g values.flatten
  | filter {α : Type} {test : α → StateM σ Bool} {keep : α → Bool} {rest : Chain σ ε α γ}
      {g : List α → Except ε (List γ)} (gives : ∀ item s, (test item s).1 = keep item) (goesOn : Means rest g) :
      Means (.filter test rest) fun items => g (items.filter keep)
  | inspect {α : Type} {look : α → StateM σ Unit} {rest : Chain σ ε α γ} {g : List α → Except ε (List γ)}
      (goesOn : Means rest g) : Means (.inspect look rest) g

theorem collect_map (f : α → Except ε β) (items : List α) : collect (items.map f) = items.mapM f := by
  induction items with
  | nil => rfl
  | cons item items ih =>
      rw [List.map_cons, List.mapM_cons]
      cases h : f item with
      | error e => rfl
      | ok value =>
          rw [collect, ih]
          cases items.mapM f <;> rfl

theorem kept_map (keep : α → Bool) (items : List α) : kept items (items.map keep) = items.filter keep := by
  induction items with
  | nil => rfl
  | cons item items ih =>
      rw [kept] at ih ⊢
      cases h : keep item <;> simp [h, ih]

theorem Follows.outcome_eq {stage : Nat} {c : Chain σ ε α γ} {passed : Except ε (List α)} {s s' : σ}
    {events : List (Event σ)} {outcome : Except ε (List γ)} {f : List α → Except ε (List γ)}
    (h : Follows stage c passed s events outcome s') (hm : c.Means f) : outcome = passed >>= f := by
  induction h with
  | failed => rfl
  | done =>
      cases hm
      rfl
  | map performs passes _ ih =>
      cases hm with
      | @map _ _ _ f _ g gives goesOn =>
          rw [ih goesOn, passes.eq_collect, performs.results_eq gives, collect_map]
          rfl
  | @flatMap _ _ _ _ _ items _ _ _ _ _ _ _ _ performs passes _ ih =>
      cases hm with
      | @flatMap _ _ _ f _ g gives goesOn =>
          rw [ih goesOn, passes.eq_collect, performs.results_eq gives, collect_map]
          change _ = items.mapM f >>= fun values => g values.flatten
          cases items.mapM f <;> rfl
  | filter performs _ ih =>
      cases hm with
      | @filter _ _ keep _ g gives goesOn =>
          rw [ih goesOn, performs.results_eq gives, kept_map]
          rfl
  | inspect performs _ ih =>
      cases hm with
      | inspect goesOn => exact ih goesOn

/-- Whatever the delays are: in each stage the work on each item is done once, also if that on other items fails,
and before anything is done in the next stage.  The results of a stage, or their first failure, after which nothing
more is done, are passed on in the order of the items; if they depend on nothing but the items, so does the
outcome. -/
theorem run_stages (c : Chain σ ε α γ) (items : List α) (s : σ) :
    ∃ events, Follows 0 c (.ok items) s events (c.run items s).1 (c.run items s).2 ∧
      Linked s events (c.run items s).2 ∧
      (events.Pairwise fun e e' => e.stage < e'.stage ∨ e.stage = e'.stage ∧ e.place ≠ e'.place) ∧
      ∀ f, c.Means f → (c.run items s).1 = f items := by
  obtain ⟨events, hfollows⟩ := follows_runFrom c 0 (.ok items) s
  exact ⟨events, hfollows, hfollows.linked, hfollows.ordered, fun f hm => hfollows.outcome_eq hm⟩

/-- Two failures: that on the first item comes last. -/
def lateFailure : Chain (List String) String Nat Nat :=
  .map (fun n => ⟨n, fun log => (if n % 2 = 1 then .error (toString n) else .ok (10 * n), log ++ [toString n])⟩)
    (.inspect (fun n log => ((), log ++ [toString n])) .done)

theorem run_stages_late : ∃ events, (events.map Event.place).Perm [0, 1, 2] ∧ (∀ e ∈ events, e.stage = 0) ∧
    Linked [] events (lateFailure.run [3, 1, 2] []).2 ∧ (lateFailure.run [3, 1, 2] []).1 = .error "3" := by
  obtain ⟨events, hfollows, hlinked, -, hmeans⟩ := run_stages lateFailure [3, 1, 2] []
  have houtcome := hmeans _ (.map (fun _ _ => rfl) (.inspect .done))
  -- nothing is done after the first stage
  have hperforms : ∃ delay turn results s', @Performs (List String) Nat (Except String Nat) 0 delay turn [3, 1, 2] [] events
      results s' := by
    generalize lateFailure.run [3, 1, 2] [] = ended at hfollows
    obtain ⟨outcome, s'⟩ := ended
    cases hfollows with
    | map performs passes goesOn =>
        rw [performs.results_eq fun _ _ => rfl] at passes
        obtain rfl := passes.eq_collect
        cases goesOn
        rw [List.append_nil]
        exact ⟨_, _, _, _, performs⟩
  obtain ⟨delay, turn, results, s', performs⟩ := hperforms
  exact ⟨events, performs.once, fun e he => (performs.effects e he).1, hlinked, houtcome⟩

end Chain

end WebModules.Schedule.Pipeline
