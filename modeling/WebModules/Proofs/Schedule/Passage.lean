import WebModules.Proofs.Schedule.Lock

/-!
Callers pass through a lock one by one.  Each that has entered leaves before another one enters, and they enter in the
order in which they have queued.
-/

namespace WebModules.Schedule.Lock

variable {σ ℓ : Type}

/-- Whether a caller gets the lock or gives it back. -/
def Event.crosses : Event → Bool
  | .queued _ => false
  | _ => true

/-- What happens when a caller passes through the lock and no other one does meanwhile. -/
def passage (caller : Nat) : List Event := [.entered caller, .left caller]

/-- Some steps of a section, from how it has found things to how they are, with these steps left. -/
def Partway (work : Section σ ℓ) (found : σ) (memory : ℓ) (shared : σ) (rest : List (Step σ ℓ)) : Prop :=
  ∃ taken, taken ++ rest = work.steps ∧ (memory, shared) = Section.runAlone ⟨work.start, taken⟩ found

theorem Partway.step {work : Section σ ℓ} {found shared : σ} {memory : ℓ} {first : Step σ ℓ}
    {rest : List (Step σ ℓ)} (h : Partway work found memory shared (first :: rest)) :
    Partway work found (first memory shared).1 (first memory shared).2 rest := by
  obtain ⟨taken, hsteps, hcome⟩ := h
  refine ⟨taken ++ [first], by rw [List.append_assoc, List.singleton_append, hsteps], ?_⟩
  rw [Section.runAlone] at hcome ⊢
  rw [List.foldl_append, ← hcome]
  rfl

namespace State

def crossings (s : State σ ℓ) : List Event := s.history.filter Event.crosses

/-- Whether a caller has entered and not left. -/
def Inside (s : State σ ℓ) (caller : Nat) : Prop :=
  ∃ memory rest, s.callers[caller]? = some (.inside memory rest)

@[simp] theorem crossings_note (s : State σ ℓ) (event : Event) :
    (s.note event).crossings = s.crossings ++ if event.crosses then [event] else [] := by
  rw [crossings, note, List.filter_append]
  cases event <;> rfl

end State

open State

theorem inside_set {s s' : State σ ℓ} {caller other : Nat} {old new : Phase σ ℓ}
    (hold : s.callers[caller]? = some old) (hcallers : s'.callers = s.callers.set caller new) :
    s'.Inside other ↔
      caller = other ∧ (∃ memory rest, new = .inside memory rest) ∨ caller ≠ other ∧ s.Inside other := by
  unfold Inside
  rw [hcallers]
  by_cases heq : caller = other
  · subst heq
    rw [Serving.getElem?_set hold]
    simp
  · rw [List.getElem?_set_ne heq]
    simp [heq]

/-- How far a caller has come with its section. -/
def Standing (works : List (Section σ ℓ)) (shared : σ) (s : State σ ℓ) (caller : Nat) (work : Section σ ℓ) :
    Phase σ ℓ → Prop
  | .away _ w => w = work ∧ caller ∉ s.arrivals
  | .queued w => w = work ∧ caller ∈ s.queue
  | .inside memory rest => Partway work (settled works shared s) memory s.shared rest
  | .done memory => ∃ before after, s.departures = before ++ caller :: after ∧
      memory = (work.runAlone (serially works before shared).2).1

/-- The callers of a lock at any time.  Those that have queued leave in that order.  At most one is inside, the first of
those that have not left, and whoever has entered before it has left before it has entered.  While nobody is inside,
things are as those that have left have left them. -/
structure Orderly (works : List (Section σ ℓ)) (shared : σ) (s : State σ ℓ) : Prop where
  once : s.arrivals.Nodup
  fair : s.arrivals = s.departures ++ s.queue
  apart : ∃ holder : Option Nat, holder.toList <+: s.queue ∧ (∀ caller, s.Inside caller ↔ holder = some caller) ∧
    s.crossings = s.departures.flatMap passage ++ holder.toList.map .entered
  stands : ∀ caller work, works[caller]? = some work →
    ∃ phase, s.callers[caller]? = some phase ∧ Standing works shared s caller work phase
  calm : (∀ caller, ¬s.Inside caller) → s.shared = settled works shared s

/-- What holds after any turns, besides what `Serving` tells. -/
structure Passing (works : List (Section σ ℓ)) (shared : σ) (s : State σ ℓ) : Prop extends
    Serving works shared s where
  apart : ∃ holder : Option Nat, (∀ caller, s.Inside caller ↔ holder = some caller) ∧
    s.crossings = s.departures.flatMap passage ++ holder.toList.map .entered
  partway : ∀ (caller : Nat) (memory : ℓ) (rest : List (Step σ ℓ)) (work : Section σ ℓ),
    s.callers[caller]? = some (.inside memory rest) → works[caller]? = some work →
      Partway work (settled works shared s) memory s.shared rest

theorem serially_cons {works : List (Section σ ℓ)} {caller : Nat} {work : Section σ ℓ}
    (hw : works[caller]? = some work) (callers : List Nat) (shared : σ) :
    serially works (caller :: callers) shared =
      let (memory, middle) := work.runAlone shared
      let (memories, last) := serially works callers middle
      (memory :: memories, last) := by
  rw [serially, List.filterMap_cons, hw, List.mapM_cons]
  rfl

theorem getElem?_serially {works : List (Section σ ℓ)} {caller : Nat} {work : Section σ ℓ} {before : List Nat}
    (hbefore : ∀ other ∈ before, other < works.length) (hw : works[caller]? = some work) (after : List Nat)
    (shared : σ) : (serially works (before ++ caller :: after) shared).1[before.length]? =
      some (work.runAlone (serially works before shared).2).1 := by
  induction before generalizing shared with
  | nil => rw [List.nil_append, serially_cons hw]; rfl
  | cons first before ih =>
      obtain ⟨hfirst, hbefore⟩ := List.forall_mem_cons.1 hbefore
      have hown := List.getElem?_eq_getElem hfirst
      rw [List.cons_append, serially_cons hown, serially_cons hown]
      exact ih hbefore _

namespace Passing

open Serving

variable {works : List (Section σ ℓ)} {shared : σ} {s s' : State σ ℓ} {caller other : Nat} {old new : Phase σ ℓ}

theorem outside (h : Passing works shared s) (hserving : Serving works shared s')
    (hold : s.callers[caller]? = some old) (hcallers : s'.callers = s.callers.set caller new)
    (hbefore : ∀ memory rest, old ≠ .inside memory rest) (hafter : ∀ memory rest, new ≠ .inside memory rest)
    (hcrossings : s'.crossings = s.crossings) (hdepartures : s'.departures = s.departures)
    (hshared : s'.shared = s.shared) : Passing works shared s' := by
  have hout : ¬s.Inside caller := by
    rintro ⟨memory, rest, hinside⟩
    exact hbefore memory rest (Option.some.inj (hold.symm.trans hinside))
  have hinside (other : Nat) : s'.Inside other ↔ s.Inside other := by
    rw [inside_set hold hcallers]
    constructor
    · rintro (⟨-, memory, rest, hnew⟩ | ⟨-, hinside⟩)
      · exact absurd hnew (hafter memory rest)
      · exact hinside
    · exact fun hinside => .inr ⟨fun heq => hout (heq ▸ hinside), hinside⟩
  refine ⟨hserving, ?_, ?_⟩
  · obtain ⟨holder, hholder, hsame⟩ := h.apart
    refine ⟨holder, fun other => (hinside other).trans (hholder other), ?_⟩
    rw [hcrossings, hdepartures, hsame]
  · intro other memory rest work hp hw
    rw [hcallers] at hp
    rcases eq_of_getElem?_set hp hold with ⟨-, hnew⟩ | ⟨-, hp⟩
    · exact absurd hnew.symm (hafter memory rest)
    · rw [settled, hdepartures, hshared]
      exact h.partway other memory rest work hp hw

theorem enter (h : Passing works shared s) {work : Section σ ℓ} (hp : s.callers[caller]? = some (.queued work))
    (hq : s.queue.head? = some caller) :
    Passing works shared ((s.note (.entered caller)).setPhase caller (.inside work.start work.steps)) := by
  have hnone := h.not_inside hp hq
  have hdepartures : ((s.note (.entered caller)).setPhase caller (.inside work.start work.steps)).departures =
      s.departures := (departures_note _ _).trans (List.append_nil _)
  refine ⟨h.entered hp hq, ?_, ?_⟩
  · obtain ⟨holder, hholder, hsame⟩ := h.apart
    cases holder with
    | some other =>
        -- only the first of the queue could be inside, and that one still waits
        obtain ⟨memory, rest, hinside⟩ := (hholder other).2 rfl
        exact absurd hinside (hnone other memory rest)
    | none =>
        refine ⟨some caller, fun other => ?_, ?_⟩
        · rw [inside_set hp rfl]
          constructor
          · rintro (⟨rfl, -⟩ | ⟨-, memory, rest, hinside⟩)
            · rfl
            · exact absurd hinside (hnone other memory rest)
          · exact fun heq => .inl ⟨Option.some.inj heq, _, _, rfl⟩
        · rw [hdepartures]
          refine (crossings_note s (.entered caller)).trans ?_
          rw [hsame, List.append_assoc]
          rfl
  · intro other memory rest own hinside hown
    rcases eq_of_getElem?_set hinside hp with ⟨rfl, hphase⟩ | ⟨-, hinside⟩
    · have hstands : work = own ∧ caller ∈ s.queue := h.stands caller _ own hp hown
      obtain ⟨rfl, rfl⟩ := Phase.inside.inj hphase
      rw [settled, hdepartures, ← hstands.1]
      exact ⟨[], rfl, congrArg (work.start, ·) (h.calm hnone)⟩
    · exact absurd hinside (hnone other memory rest)

theorem step (h : Passing works shared s) {memory : ℓ} {first : Step σ ℓ} {rest : List (Step σ ℓ)}
    (hp : s.callers[caller]? = some (.inside memory (first :: rest))) :
    Passing works shared ({ s with shared := (first memory s.shared).2 }.setPhase caller
      (.inside (first memory s.shared).1 rest)) := by
  refine ⟨h.toServing.step hp, ?_, ?_⟩
  · obtain ⟨holder, hholder, hsame⟩ := h.apart
    have hholds : holder = some caller := (hholder caller).1 ⟨memory, first :: rest, hp⟩
    refine ⟨holder, fun other => ?_, hsame⟩
    rw [inside_set hp rfl, hholder other, hholds]
    constructor
    · rintro (⟨rfl, -⟩ | ⟨-, heq⟩)
      · rfl
      · exact heq
    · exact fun heq => .inl ⟨Option.some.inj heq, _, _, rfl⟩
  · intro other memory' rest' work hinside hw
    rcases eq_of_getElem?_set hinside hp with ⟨rfl, hphase⟩ | ⟨hne, hinside⟩
    · obtain ⟨rfl, rfl⟩ := Phase.inside.inj hphase
      exact (h.partway caller memory _ work hp hw).step
    · exact absurd (h.eq_of_inside hp hinside) hne

theorem leave (h : Passing works shared s) {memory : ℓ} (hp : s.callers[caller]? = some (.inside memory [])) :
    Passing works shared (s.leave caller memory) := by
  have hnone (other : Nat) : ¬(s.leave caller memory).Inside other := by
    rintro ⟨memory', rest', hinside⟩
    rcases eq_of_getElem?_set hinside hp with ⟨-, hphase⟩ | ⟨hne, hinside⟩
    · cases hphase
    · exact hne (h.eq_of_inside hp hinside)
  refine ⟨h.toServing.leave hp, ⟨none, fun other => ?_, ?_⟩, ?_⟩
  · exact iff_of_false (hnone other) (Option.some_ne_none other).symm
  · -- its leaving completes the passage that its entering has begun
    obtain ⟨holder, hholder, hsame⟩ := h.apart
    have hholds : holder = some caller := (hholder caller).1 ⟨memory, [], hp⟩
    have hcrossings : (s.leave caller memory).crossings = s.crossings ++ [.left caller] := crossings_note _ _
    have hdepartures : (s.leave caller memory).departures = s.departures ++ [caller] := departures_note _ _
    rw [hcrossings, hdepartures, hsame, hholds, List.flatMap_append, List.append_assoc]
    exact (List.append_nil _).symm
  · exact fun other memory' rest' work hinside => absurd ⟨memory', rest', hinside⟩ (hnone other)

theorem move (h : Passing works shared s) (hmove : Move s s') : Passing works shared s' := by
  have hserving := h.toServing.move hmove
  cases hmove with
  | wait hp => exact h.outside hserving hp rfl (fun _ _ => nofun) (fun _ _ => nofun) rfl rfl rfl
  | arrive hp =>
      refine h.outside hserving hp rfl (fun _ _ => nofun) (fun _ _ => nofun) ?_ ?_ rfl
      · exact (crossings_note _ _).trans (List.append_nil _)
      · exact (departures_note _ _).trans (List.append_nil _)
  | enter hp hq => exact h.enter hp hq
  | step hp => exact h.step hp
  | leave hp => exact h.leave hp

theorem turns (h : Passing works shared s) (order : List Nat) : Passing works shared (s.turns order) :=
  Move.keeps_turns (fun _ _ h => h.move) h order

theorem initial (shared : σ) (callers : List (Nat × Section σ ℓ)) :
    Passing (callers.map Prod.snd) shared (State.initial shared callers) := by
  have hnone (caller : Nat) : ¬(State.initial shared callers).Inside caller := by
    rintro ⟨memory, rest, hinside⟩
    simp [State.initial] at hinside
  refine ⟨Serving.initial shared callers, ⟨none, fun caller => ?_, rfl⟩, ?_⟩
  · exact iff_of_false (hnone caller) (Option.some_ne_none caller).symm
  · exact fun caller memory rest work hinside => absurd ⟨memory, rest, hinside⟩ (hnone caller)

theorem value_eq (h : Passing works shared s) {work : Section σ ℓ} (hw : works[caller]? = some work)
    {before after : List Nat} (hsplit : s.departures = before ++ caller :: after) :
    s.callers[caller]? = some (.done (work.runAlone (serially works before shared).2).1) := by
  have hknown (other : Nat) (ho : other ∈ before) : other < works.length := by
    refine h.known other (h.fair ▸ List.mem_append_left _ ?_)
    exact hsplit ▸ List.mem_append_left _ ho
  have hplace : (before ++ caller :: after)[before.length]? = some caller := by simp
  have hanswered := congrArg (·[before.length]?) h.answered
  simp only [hsplit, List.getElem?_map, hplace, getElem?_serially hknown hw, Option.map_some] at hanswered
  exact Option.some.inj hanswered

theorem exists_standing (h : Passing works shared s) {work : Section σ ℓ} (hw : works[caller]? = some work) :
    ∃ phase, s.callers[caller]? = some phase ∧ Standing works shared s caller work phase := by
  have hlt : caller < s.callers.length := h.length ▸ (List.getElem?_eq_some_iff.1 hw).1
  have hp := List.getElem?_eq_getElem hlt
  refine ⟨_, hp, ?_⟩
  generalize s.callers[caller] = phase at hp ⊢
  have hstands := h.stands caller phase work hp hw
  cases phase with
  | away turns w => exact hstands
  | queued w => exact hstands
  | inside memory rest => exact h.partway caller memory rest work hp hw
  | done memory =>
      obtain ⟨before, after, hsplit⟩ := List.append_of_mem hstands
      refine ⟨before, after, hsplit, ?_⟩
      exact Phase.done.inj (Option.some.inj (hp.symm.trans (h.value_eq hw hsplit)))

theorem orderly (h : Passing works shared s) : Orderly works shared s where
  once := h.once
  fair := h.fair
  apart := by
    obtain ⟨holder, hholder, hsame⟩ := h.apart
    refine ⟨holder, ?_, hholder, hsame⟩
    cases holder with
    | none => exact List.nil_prefix
    | some caller =>
        obtain ⟨memory, rest, hinside⟩ := (hholder caller).2 rfl
        obtain ⟨tail, htail⟩ := List.head?_eq_some_iff.1 (h.head_of_inside hinside)
        exact ⟨tail, htail.symm⟩
  stands := fun _ _ hw => h.exists_standing hw
  calm := fun hnone => h.calm fun caller memory rest hinside => hnone caller ⟨memory, rest, hinside⟩

end Passing

theorem Orderly.crossings_eq {works : List (Section σ ℓ)} {shared : σ} {s : State σ ℓ} (h : Orderly works shared s)
    (hq : s.queue = []) : s.crossings = s.arrivals.flatMap passage := by
  obtain ⟨holder, hfirst, -, hsame⟩ := h.apart
  rw [hq, List.prefix_nil] at hfirst
  rw [hsame, hfirst, h.fair, hq, List.map_nil, List.append_nil, List.append_nil]

/-- Whatever turns they get, callers pass through a lock one by one in the order in which they have queued, and each
does its section once, from its first step to its last one, and has its own value then.  Enough rounds of turns
bring all of them through, and the lock is free then. -/
theorem callers_pass (shared : σ) (callers : List (Nat × Section σ ℓ)) (order : List Nat) :
    let works := callers.map Prod.snd
    let s := (State.initial shared callers).turns order
    Orderly works shared s ∧
      (∀ rounds : List (List Nat), s.remaining ≤ rounds.length →
        (∀ round ∈ rounds, ∀ caller < callers.length, caller ∈ round) → (s.turns rounds.flatten).finished) ∧
      (s.finished → s.queue = [] ∧ s.arrivals.Perm (List.range callers.length) ∧
        s.crossings = s.arrivals.flatMap passage ∧
        serially works s.arrivals shared = (s.arrivals.filterMap (s.results[·]?), s.shared)) := by
  intro works s
  have hpassing : Passing works shared s := (Passing.initial shared callers).turns order
  have hlength : works.length = callers.length := List.length_map _
  refine ⟨hpassing.orderly, fun rounds hrounds hall => ?_, fun hf => ⟨hpassing.queue_eq_nil hf, ?_, ?_, ?_⟩⟩
  · exact hpassing.finished_of_rounds (hlength ▸ hall) hrounds
  · exact hlength ▸ hpassing.arrivals_perm hf
  · exact hpassing.orderly.crossings_eq (hpassing.queue_eq_nil hf)
  · exact hpassing.serially_eq hf

/-- Notes each of its steps, and comes to a value with the last one. -/
def noting (caller steps : Nat) (value : Except String Nat) : Section (List (Nat × Nat)) (Except String Nat) :=
  ⟨.ok 0, (List.range steps).map fun step memory notes =>
    (if step + 1 = steps then value else memory, notes ++ [(caller, step)])⟩

def noters : List (Nat × Section (List (Nat × Nat)) (Except String Nat)) :=
  [(0, noting 0 2 (.ok 7)), (1, noting 1 3 (.error "refused")), (2, noting 2 1 (.ok 9))]

/-- The last caller queues when the first one has just left and the second one has not had a turn yet. -/
theorem callers_pass_handover :
    let s := (State.initial [] noters).turns [0, 1, 1, 2, 2, 0, 2, 1, 2, 1, 1, 2]
    (s.finished ∧ s.queue = [] ∧ s.arrivals = [0, 1, 2] ∧ s.crossings = [0, 1, 2].flatMap passage ∧
      serially (noters.map Prod.snd) [0, 1, 2] [] = (s.results, s.shared)) ∧
    ((State.initial [] noters).turns (List.replicate 15 [2, 1, 0]).flatten).finished := by
  intro s
  have hrun : s.finished ∧ s.arrivals = [0, 1, 2] ∧ s.arrivals.filterMap (s.results[·]?) = s.results := by
    decide +kernel
  obtain ⟨hfree, -, hcrossings, hserially⟩ := (callers_pass [] noters _).2.2 hrun.1
  refine ⟨⟨hrun.1, hfree, hrun.2.1, hrun.2.1 ▸ hcrossings, ?_⟩, ?_⟩
  · rw [← hrun.2.2, ← hserially, hrun.2.1]
  · refine (callers_pass [] noters []).2.1 _ (by decide +kernel) fun round hround caller hlt => ?_
    rw [List.eq_of_mem_replicate hround]
    have hlt : caller < 3 := hlt
    simp only [List.mem_cons, List.not_mem_nil, or_false]
    omega

end WebModules.Schedule.Lock
