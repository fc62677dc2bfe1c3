import Mathlib
import WebModules.Schedule.Lock

/-!
Whatever turns the callers of a lock get, they leave in the order in which they have queued, and come
to what they would come to one after the other in that order.
-/

namespace WebModules.Schedule.Lock

variable {σ ℓ : Type}

def Event.arrival? : Event → Option Nat
  | .queued caller => some caller
  | _ => none

def Event.departure? : Event → Option Nat
  | .left caller => some caller
  | _ => none

def Phase.isDone : Phase σ ℓ → Bool
  | .done _ => true
  | _ => false

/-- What the sections of some callers come to one after the other. -/
def serially (works : List (Section σ ℓ)) (callers : List Nat) : StateM σ (List ℓ) :=
  (callers.filterMap (works[·]?)).mapM Section.runAlone

theorem serially_concat {works : List (Section σ ℓ)} {caller : Nat} {work : Section σ ℓ}
    (hw : works[caller]? = some work) (callers : List Nat) (shared : σ) :
    serially works (callers ++ [caller]) shared =
      let (memories, middle) := serially works callers shared
      let (memory, last) := work.runAlone middle
      (memories ++ [memory], last) := by
  rw [serially, List.filterMap_append, List.mapM_append]
  simp only [List.filterMap_cons, hw, List.filterMap_nil, List.mapM_cons, List.mapM_nil]
  rfl

namespace State

/-- The callers that have queued, in that order. -/
def arrivals (s : State σ ℓ) : List Nat := s.history.filterMap Event.arrival?

/-- The callers that have left, in that order. -/
def departures (s : State σ ℓ) : List Nat := s.history.filterMap Event.departure?

def finished (s : State σ ℓ) : Bool := s.callers.all Phase.isDone

variable {s : State σ ℓ} {caller : Nat}

@[simp] theorem arrivals_note (s : State σ ℓ) (event : Event) :
    (s.note event).arrivals = s.arrivals ++ event.arrival?.toList := by
  rw [arrivals, note, List.filterMap_append]
  cases event <;> rfl

@[simp] theorem departures_note (s : State σ ℓ) (event : Event) :
    (s.note event).departures = s.departures ++ event.departure?.toList := by
  rw [departures, note, List.filterMap_append]
  cases event <;> rfl

/-! A phase that is set twice -/

theorem leave_setPhase (s : State σ ℓ) (caller : Nat) (phase : Phase σ ℓ) (memory : ℓ) :
    (s.setPhase caller phase).leave caller memory = s.leave caller memory := by
  simp [leave, setPhase, note]

theorem advance_setPhase (s : State σ ℓ) (caller : Nat) (phase : Phase σ ℓ) (memory : ℓ)
    (rest : List (Step σ ℓ)) :
    (s.setPhase caller phase).advance caller memory rest = s.advance caller memory rest := by
  cases rest <;> simp [advance, leave, setPhase, note]

theorem enter_setPhase (s : State σ ℓ) (caller : Nat) (phase : Phase σ ℓ) (work : Section σ ℓ) :
    (s.setPhase caller phase).enter caller work = s.enter caller work :=
  advance_setPhase (s.note (.entered caller)) caller phase work.start work.steps

end State

open State

/-- How things are when those who have left have had them one after the other. -/
def settled (works : List (Section σ ℓ)) (shared : σ) (s : State σ ℓ) : σ :=
  (serially works s.departures shared).2

/-- How a caller stands with its section.  The steps that one inside has left lead to what its section
comes to alone, from what those before it have left. -/
def Stands (s : State σ ℓ) (settled : σ) (caller : Nat) (work : Section σ ℓ) : Phase σ ℓ → Prop
  | .away _ w => w = work ∧ caller ∉ s.arrivals
  | .queued w => w = work ∧ caller ∈ s.queue
  | .inside memory rest => s.queue.head? = some caller ∧
      rest.foldl (fun (memory, shared) step => step memory shared) (memory, s.shared) = work.runAlone settled
  | .done _ => caller ∈ s.departures

/-- A caller stands as before where it stays in the lists that it is in, and where what is shared stays if it is
the first of the queue. -/
theorem Stands.transfer {s s' : State σ ℓ} {left left' : σ} {caller : Nat} {work : Section σ ℓ} {phase : Phase σ ℓ}
    (h : Stands s left caller work phase) (harrivals : caller ∉ s.arrivals → caller ∉ s'.arrivals)
    (hqueue : caller ∈ s.queue → caller ∈ s'.queue) (hdepartures : caller ∈ s.departures → caller ∈ s'.departures)
    (hfirst : s.queue.head? = some caller → s'.queue.head? = some caller ∧ s'.shared = s.shared ∧ left' = left) :
    Stands s' left' caller work phase := by
  cases phase with
  | away turns own => exact ⟨h.1, harrivals h.2⟩
  | queued own => exact ⟨h.1, hqueue h.2⟩
  | inside memory rest =>
      obtain ⟨hhead, hshared, rfl⟩ := hfirst h.1
      exact ⟨hhead, hshared ▸ h.2⟩
  | done memory => exact hdepartures h

/-- What holds after any turns of callers with some sections. -/
structure Serving (works : List (Section σ ℓ)) (shared : σ) (s : State σ ℓ) : Prop where
  length : s.callers.length = works.length
  known : ∀ caller ∈ s.arrivals, caller < works.length
  once : s.arrivals.Nodup
  fair : s.arrivals = s.departures ++ s.queue
  answered : s.departures.map (s.callers[·]?) =
    (serially works s.departures shared).1.map fun memory => some (.done memory)
  stands : ∀ caller phase work, s.callers[caller]? = some phase → works[caller]? = some work →
    Stands s (settled works shared s) caller work phase
  calm : (∀ (caller : Nat) (memory : ℓ) (rest : List (Step σ ℓ)),
    s.callers[caller]? ≠ some (Phase.inside memory rest)) → s.shared = settled works shared s

namespace Serving

variable {works : List (Section σ ℓ)} {shared : σ} {s s' : State σ ℓ} {caller : Nat} {phase : Phase σ ℓ}
  {work : Section σ ℓ}

theorem exists_work (h : Serving works shared s) (hp : s.callers[caller]? = some phase) :
    ∃ work, works[caller]? = some work := by
  obtain ⟨hlt, -⟩ := List.getElem?_eq_some_iff.1 hp
  exact ⟨_, List.getElem?_eq_getElem (h.length ▸ hlt)⟩

theorem exists_stands (h : Serving works shared s) (hlt : caller < works.length) :
    ∃ phase work, s.callers[caller]? = some phase ∧ Stands s (settled works shared s) caller work phase := by
  have hp := List.getElem?_eq_getElem (h.length ▸ hlt)
  exact ⟨_, _, hp, h.stands caller _ _ hp (List.getElem?_eq_getElem hlt)⟩

theorem not_departed_of_queue (h : Serving works shared s) (hq : caller ∈ s.queue) : caller ∉ s.departures := by
  have honce := h.once
  rw [h.fair] at honce
  exact fun hd => (List.nodup_append.1 honce).2.2 caller hd caller hq rfl

theorem not_departed_of_arrivals (h : Serving works shared s) (ha : caller ∉ s.arrivals) :
    caller ∉ s.departures :=
  fun hd => ha (h.fair ▸ List.mem_append_left _ hd)

theorem mem_queue_of_head (hq : s.queue.head? = some caller) : caller ∈ s.queue :=
  List.mem_of_mem_head? (Option.mem_def.2 hq)

theorem getElem?_set {callers : List (Phase σ ℓ)} {old : Phase σ ℓ} (hc : callers[caller]? = some old)
    (new : Phase σ ℓ) : (callers.set caller new)[caller]? = some new := by
  rw [List.getElem?_set_self', hc]
  rfl

theorem eq_of_getElem?_set {callers : List (Phase σ ℓ)} {other : Nat} {old new : Phase σ ℓ}
    (hp : (callers.set caller new)[other]? = some phase) (hc : callers[caller]? = some old) :
    caller = other ∧ phase = new ∨ caller ≠ other ∧ callers[other]? = some phase := by
  by_cases heq : caller = other
  · subst heq
    rw [getElem?_set hc] at hp
    exact .inl ⟨rfl, (Option.some.inj hp).symm⟩
  · exact .inr ⟨heq, by rwa [List.getElem?_set_ne heq] at hp⟩

/-- What the others have become does not depend on a caller that is not among them. -/
theorem map_set {callers : List (Phase σ ℓ)} {others : List Nat} (h : caller ∉ others) (phase : Phase σ ℓ) :
    others.map ((callers.set caller phase)[·]?) = others.map (callers[·]?) := by
  apply List.map_congr_left
  intro other ho
  have hne : caller ≠ other := fun heq => h (heq ▸ ho)
  exact List.getElem?_set_ne hne

/-- Only the first of the queue is inside. -/
theorem head_of_inside (h : Serving works shared s) {memory : ℓ} {rest : List (Step σ ℓ)}
    (hp : s.callers[caller]? = some (.inside memory rest)) : s.queue.head? = some caller := by
  obtain ⟨work, hw⟩ := h.exists_work hp
  exact (h.stands caller _ work hp hw).1

theorem eq_of_inside (h : Serving works shared s) {other : Nat} {memory memory' : ℓ} {rest rest' : List (Step σ ℓ)}
    (hp : s.callers[caller]? = some (.inside memory rest)) (hother : s.callers[other]? = some (.inside memory' rest')) :
    caller = other :=
  Option.some.inj ((h.head_of_inside hp).symm.trans (h.head_of_inside hother))

/-- No one is inside while the first of the queue still waits. -/
theorem not_inside (h : Serving works shared s) (hp : s.callers[caller]? = some (.queued work))
    (hq : s.queue.head? = some caller) (other : Nat) (memory : ℓ) (rest : List (Step σ ℓ)) :
    s.callers[other]? ≠ some (.inside memory rest) := by
  intro hinside
  obtain rfl : caller = other := Option.some.inj (hq.symm.trans (h.head_of_inside hinside))
  rw [hp] at hinside
  cases hinside

/-! Single steps -/

/-- A step of a caller with which no one leaves.  Only the first of the queue changes what is shared,
and stays inside. -/
theorem proceed (h : Serving works shared s) {old : Phase σ ℓ} (hold : s.callers[caller]? = some old)
    (hw : works[caller]? = some work) (hcallers : s'.callers = s.callers.set caller phase)
    (hdepartures : s'.departures = s.departures) (hstays : caller ∉ s.departures)
    (harrivals : s'.arrivals = s.arrivals ∧ s'.queue = s.queue ∨
      caller ∉ s.arrivals ∧ s'.arrivals = s.arrivals ++ [caller] ∧ s'.queue = s.queue ++ [caller])
    (hshared : s'.shared = s.shared ∧ (∀ memory rest, old ≠ .inside memory rest) ∨
      s.queue.head? = some caller ∧ ∃ memory rest, phase = .inside memory rest)
    (hstands : Stands s' (settled works shared s) caller work phase) : Serving works shared s' := by
  have hsettled : settled works shared s' = settled works shared s := by
    rw [settled, settled, hdepartures]
  constructor
  case length => simpa [hcallers] using h.length
  case known =>
    intro other ho
    rcases harrivals with ⟨harrivals, -⟩ | ⟨-, harrivals, -⟩ <;> rw [harrivals] at ho
    · exact h.known other ho
    · rcases List.mem_append.1 ho with ho | ho
      · exact h.known other ho
      · exact List.mem_singleton.1 ho ▸ (List.getElem?_eq_some_iff.1 hw).1
  case once =>
    rcases harrivals with ⟨harrivals, -⟩ | ⟨hnew, harrivals, -⟩ <;> rw [harrivals]
    · exact h.once
    · refine List.nodup_append.2 ⟨h.once, by simp, fun other ho last hl heq => hnew ?_⟩
      rwa [heq, List.mem_singleton.1 hl] at ho
  case fair =>
    rcases harrivals with ⟨harrivals, hqueue⟩ | ⟨-, harrivals, hqueue⟩ <;>
      rw [harrivals, hqueue, hdepartures, h.fair]
    exact List.append_assoc _ _ _
  case answered =>
    rw [hcallers, hdepartures, map_set hstays]
    exact h.answered
  case stands =>
    intro other p w hp hother
    rw [hsettled]
    rw [hcallers] at hp
    rcases eq_of_getElem?_set hp hold with ⟨rfl, rfl⟩ | ⟨hne, hp⟩
    · rw [hw] at hother
      cases hother
      exact hstands
    · refine (h.stands other p w hp hother).transfer ?_ ?_ ?_ ?_
      · intro ha
        rcases harrivals with ⟨harrivals, -⟩ | ⟨-, harrivals, -⟩ <;> rw [harrivals]
        · exact ha
        · simpa [Ne.symm hne] using ha
      · intro hq
        rcases harrivals with ⟨-, hqueue⟩ | ⟨-, -, hqueue⟩ <;> rw [hqueue]
        · exact hq
        · exact List.mem_append_left _ hq
      · intro hd
        exact hdepartures ▸ hd
      · intro hfirst
        -- the other is the first of the queue, so this caller is not
        rcases hshared with ⟨hshared, -⟩ | ⟨hhead, -⟩
        · obtain ⟨tail, htail⟩ := List.head?_eq_some_iff.1 hfirst
          refine ⟨?_, hshared, rfl⟩
          rcases harrivals with ⟨-, hqueue⟩ | ⟨-, -, hqueue⟩ <;> simp [hqueue, htail]
        · exact absurd (Option.some.inj (hhead.symm.trans hfirst)) hne
  case calm =>
    intro hnone
    have hcaller : s'.callers[caller]? = some phase := hcallers ▸ getElem?_set hold phase
    rcases hshared with ⟨hshared, hold'⟩ | ⟨-, memory, rest, rfl⟩
    · rw [hshared, hsettled]
      refine h.calm fun other memory rest hinside => ?_
      by_cases heq : caller = other
      · subst heq
        rw [hold] at hinside
        exact hold' memory rest (Option.some.inj hinside)
      · refine hnone other memory rest ?_
        rwa [hcallers, List.getElem?_set_ne heq]
    · exact absurd hcaller (hnone caller memory rest)

theorem wait (h : Serving works shared s) {turns : Nat}
    (hp : s.callers[caller]? = some (.away (turns + 1) work)) :
    Serving works shared (s.setPhase caller (.away turns work)) := by
  obtain ⟨own, hown⟩ := h.exists_work hp
  have hstands : work = own ∧ caller ∉ s.arrivals := h.stands caller _ own hp hown
  exact h.proceed hp hown rfl rfl (h.not_departed_of_arrivals hstands.2) (.inl ⟨rfl, rfl⟩)
    (.inl ⟨rfl, fun _ _ => nofun⟩) hstands

theorem arrive (h : Serving works shared s) (hp : s.callers[caller]? = some (.away 0 work)) :
    Serving works shared
      (({ s with queue := s.queue ++ [caller] }.note (.queued caller)).setPhase caller (.queued work)) := by
  obtain ⟨own, hown⟩ := h.exists_work hp
  obtain ⟨hwork, hnew⟩ : work = own ∧ caller ∉ s.arrivals := h.stands caller _ own hp hown
  refine h.proceed hp hown rfl ?_ (h.not_departed_of_arrivals hnew) (.inr ⟨hnew, arrivals_note _ _, rfl⟩)
    (.inl ⟨rfl, fun _ _ => nofun⟩) ⟨hwork, List.mem_append_right _ List.mem_cons_self⟩
  exact (departures_note _ _).trans (List.append_nil _)

/-- The first of the queue finds things as those before it have left them. -/
theorem entered (h : Serving works shared s) (hp : s.callers[caller]? = some (.queued work))
    (hq : s.queue.head? = some caller) :
    Serving works shared
      ((s.note (.entered caller)).setPhase caller (.inside work.start work.steps)) := by
  obtain ⟨own, hown⟩ := h.exists_work hp
  obtain ⟨rfl, hqueue⟩ : work = own ∧ caller ∈ s.queue := h.stands caller _ own hp hown
  have hshared : s.shared = settled works shared s := h.calm (h.not_inside hp hq)
  refine h.proceed hp hown rfl ?_ (h.not_departed_of_queue hqueue) (.inl ⟨?_, rfl⟩)
    (.inl ⟨rfl, fun _ _ => nofun⟩) ⟨hq, ?_⟩
  · exact (departures_note _ _).trans (List.append_nil _)
  · exact (arrivals_note _ _).trans (List.append_nil _)
  · rw [← hshared]
    rfl

theorem step (h : Serving works shared s) {memory : ℓ} {first : Step σ ℓ} {rest : List (Step σ ℓ)}
    (hp : s.callers[caller]? = some (.inside memory (first :: rest))) :
    Serving works shared ({ s with shared := (first memory s.shared).2 }.setPhase caller
      (.inside (first memory s.shared).1 rest)) := by
  obtain ⟨own, hown⟩ := h.exists_work hp
  have hstands : Stands s _ caller own (.inside memory (first :: rest)) := h.stands caller _ own hp hown
  exact h.proceed hp hown rfl rfl (h.not_departed_of_queue (mem_queue_of_head hstands.1))
    (.inl ⟨rfl, rfl⟩) (.inr ⟨hstands.1, _, _, rfl⟩) hstands

/-- One that leaves has come to what its section comes to after those before it. -/
theorem leave (h : Serving works shared s) {memory : ℓ} (hp : s.callers[caller]? = some (.inside memory [])) :
    Serving works shared (s.leave caller memory) := by
  obtain ⟨own, hown⟩ := h.exists_work hp
  obtain ⟨hhead, halone⟩ : s.queue.head? = some caller ∧ (memory, s.shared) = own.runAlone (settled works shared s) :=
    h.stands caller _ own hp hown
  obtain ⟨tail, hqueue⟩ := List.head?_eq_some_iff.1 hhead
  have hdepartures : (s.leave caller memory).departures = s.departures ++ [caller] := departures_note _ _
  have harrivals : (s.leave caller memory).arrivals = s.arrivals :=
    (arrivals_note _ _).trans (List.append_nil _)
  have htail : (s.leave caller memory).queue = tail := by
    simp [State.leave, note, hqueue]
  have hserially : serially works (s.departures ++ [caller]) shared =
      ((serially works s.departures shared).1 ++ [memory], s.shared) := by
    rw [serially_concat hown]
    exact congrArg (fun last : ℓ × σ => ((serially works s.departures shared).1 ++ [last.1], last.2)) halone.symm
  have hsettled : settled works shared (s.leave caller memory) = s.shared := by
    rw [settled, hdepartures, hserially]
  have hstays : caller ∉ s.departures := h.not_departed_of_queue (mem_queue_of_head hhead)
  constructor
  case length => simpa [State.leave, setPhase, note] using h.length
  case known => exact harrivals ▸ h.known
  case once => exact harrivals ▸ h.once
  case fair =>
    rw [harrivals, hdepartures, htail, h.fair, hqueue, List.append_assoc]
    rfl
  case answered =>
    rw [hdepartures, hserially]
    change (s.departures ++ [caller]).map ((s.callers.set caller (.done memory))[·]?) = _
    rw [List.map_append, map_set hstays, h.answered, List.map_append, List.map_singleton, getElem?_set hp]
    rfl
  case stands =>
    intro other p w hphase hother
    rcases eq_of_getElem?_set hphase hp with ⟨rfl, rfl⟩ | ⟨hne, hold⟩
    · change caller ∈ (s.leave caller memory).departures
      rw [hdepartures]
      exact List.mem_append_right _ List.mem_cons_self
    · refine (h.stands other p w hold hother).transfer (fun ha => harrivals ▸ ha) ?_ ?_ ?_
      · intro hq
        rw [hqueue] at hq
        exact htail ▸ (List.mem_cons.1 hq).resolve_left (Ne.symm hne)
      · intro hd
        exact hdepartures ▸ List.mem_append_left _ hd
      · exact fun hfirst => absurd (Option.some.inj (hhead.symm.trans hfirst)) hne
  case calm => exact fun _ => hsettled.symm

end Serving

/-! Turns -/

/-- A single change by one of the callers.  A turn is made of a few of them. -/
inductive Move : State σ ℓ → State σ ℓ → Prop
  | wait {s : State σ ℓ} {caller turns : Nat} {work : Section σ ℓ}
      (hp : s.callers[caller]? = some (.away (turns + 1) work)) : Move s (s.setPhase caller (.away turns work))
  | arrive {s : State σ ℓ} {caller : Nat} {work : Section σ ℓ} (hp : s.callers[caller]? = some (.away 0 work)) :
      Move s (({ s with queue := s.queue ++ [caller] }.note (.queued caller)).setPhase caller (.queued work))
  | enter {s : State σ ℓ} {caller : Nat} {work : Section σ ℓ} (hp : s.callers[caller]? = some (.queued work))
      (hq : s.queue.head? = some caller) :
      Move s ((s.note (.entered caller)).setPhase caller (.inside work.start work.steps))
  | step {s : State σ ℓ} {caller : Nat} {memory : ℓ} {first : Step σ ℓ} {rest : List (Step σ ℓ)}
      (hp : s.callers[caller]? = some (.inside memory (first :: rest))) :
      Move s ({ s with shared := (first memory s.shared).2 }.setPhase caller
        (.inside (first memory s.shared).1 rest))
  | leave {s : State σ ℓ} {caller : Nat} {memory : ℓ} (hp : s.callers[caller]? = some (.inside memory [])) :
      Move s (s.leave caller memory)

namespace Move

open Relation Serving

variable {s : State σ ℓ} {caller : Nat}

theorem of_advance {memory : ℓ} {rest : List (Step σ ℓ)} (hp : s.callers[caller]? = some (.inside memory rest)) :
    ReflTransGen Move s (s.advance caller memory rest) := by
  cases rest with
  | nil => exact .single (.leave hp)
  | cons first rest =>
      have hstep : ReflTransGen Move s _ := .single (.step hp)
      cases rest with
      | nil =>
          have hleave := hstep.tail (.leave (getElem?_set hp _))
          rwa [leave_setPhase] at hleave
      | cons next rest => exact hstep

theorem of_enter {work : Section σ ℓ} (hp : s.callers[caller]? = some (.queued work))
    (hq : s.queue.head? = some caller) : ReflTransGen Move s (s.enter caller work) := by
  have henter := (of_advance (getElem?_set hp _)).head (.enter hp hq)
  rwa [advance_setPhase] at henter

theorem of_turn (s : State σ ℓ) (caller : Nat) : ReflTransGen Move s (s.turn caller) := by
  unfold State.turn
  split
  case h_1 turns work hp => exact .single (.wait hp)
  case h_2 work hp =>
    have harrive := Move.arrive hp
    cases hqueue : s.queue with
    | nil =>
        have henter := (of_enter (getElem?_set hp _) (by simp [setPhase, note, hqueue])).head harrive
        rw [enter_setPhase] at henter
        simpa [hqueue] using henter
    | cons first rest => simpa [hqueue] using ReflTransGen.single harrive
  case h_3 work hp =>
    split
    case isTrue hq => exact of_enter hp hq
    case isFalse => exact .refl
  case h_4 memory rest hp => exact of_advance hp
  case h_5 => exact .refl
  case h_6 => exact .refl

theorem of_turns (s : State σ ℓ) (order : List Nat) : ReflTransGen Move s (s.turns order) := by
  induction order generalizing s with
  | nil => exact .refl
  | cons caller order ih => exact (of_turn s caller).trans (ih (s.turn caller))

theorem keeps_turns {P : State σ ℓ → Prop} (hkeep : ∀ s s', P s → Move s s' → P s') (h : P s) (order : List Nat) :
    P (s.turns order) := by
  have hmoves := of_turns s order
  generalize s.turns order = last at hmoves ⊢
  induction hmoves with
  | refl => exact h
  | tail _ hmove ih => exact hkeep _ _ ih hmove

end Move

namespace Serving

variable {works : List (Section σ ℓ)} {shared : σ} {s s' : State σ ℓ} {caller : Nat}

theorem move (h : Serving works shared s) (hmove : Move s s') : Serving works shared s' := by
  cases hmove with
  | wait hp => exact h.wait hp
  | arrive hp => exact h.arrive hp
  | enter hp hq => exact h.entered hp hq
  | step hp => exact h.step hp
  | leave hp => exact h.leave hp

theorem turns (h : Serving works shared s) (order : List Nat) : Serving works shared (s.turns order) :=
  Move.keeps_turns (fun _ _ h => h.move) h order

theorem initial (shared : σ) (callers : List (Nat × Section σ ℓ)) :
    Serving (callers.map Prod.snd) shared (State.initial shared callers) where
  length := by simp [State.initial]
  known := fun _ => nofun
  once := List.nodup_nil
  fair := rfl
  answered := rfl
  stands := by
    intro caller phase work hp hw
    simp only [State.initial, List.getElem?_map, Option.map_eq_some_iff] at hp hw
    obtain ⟨first, hfirst, rfl⟩ := hp
    obtain ⟨second, hsecond, rfl⟩ := hw
    rw [hfirst] at hsecond
    cases hsecond
    exact ⟨rfl, nofun⟩
  calm := fun _ => rfl

/-! The end -/

theorem departed_of_finished (h : Serving works shared s) (hf : s.finished) (hlt : caller < works.length) :
    caller ∈ s.departures := by
  obtain ⟨phase, work, hp, hstands⟩ := h.exists_stands hlt
  have hdone : phase.isDone := List.all_eq_true.1 hf _ (List.mem_of_getElem? hp)
  cases phase with
  | done memory => exact hstands
  | _ => exact nomatch hdone

theorem queue_eq_nil (h : Serving works shared s) (hf : s.finished) : s.queue = [] := by
  refine List.eq_nil_iff_forall_not_mem.2 fun caller hq => h.not_departed_of_queue hq (h.departed_of_finished hf ?_)
  exact h.known caller (h.fair ▸ List.mem_append_right _ hq)

theorem departures_eq (h : Serving works shared s) (hf : s.finished) : s.departures = s.arrivals := by
  rw [h.fair, h.queue_eq_nil hf, List.append_nil]

theorem arrivals_perm (h : Serving works shared s) (hf : s.finished) :
    s.arrivals.Perm (List.range works.length) := by
  refine (List.perm_ext_iff_of_nodup h.once List.nodup_range).2 fun caller => ?_
  rw [List.mem_range]
  exact ⟨h.known caller, fun hlt => h.departures_eq hf ▸ h.departed_of_finished hf hlt⟩

theorem callers_eq (hf : s.finished) : s.callers = s.results.map .done := by
  rw [finished, List.all_eq_true] at hf
  rw [results]
  generalize s.callers = callers at hf
  induction callers with
  | nil => rfl
  | cons phase callers ih =>
      have hlater := ih fun p hp => hf p (List.mem_cons_of_mem _ hp)
      cases phase with
      | done memory => exact congrArg (Phase.done memory :: ·) hlater
      | _ => exact nomatch hf _ List.mem_cons_self

/-- All have come to what they would have come to one after the other in the order in which they have
queued, and so has what they share. -/
theorem serially_eq (h : Serving works shared s) (hf : s.finished) :
    serially works s.arrivals shared = (s.arrivals.filterMap (s.results[·]?), s.shared) := by
  have hcalm : s.shared = settled works shared s := by
    refine h.calm fun caller memory rest hinside => ?_
    have hhead := h.head_of_inside hinside
    simp [h.queue_eq_nil hf] at hhead
  have hanswered := h.answered
  rw [settled, h.departures_eq hf] at hcalm
  rw [h.departures_eq hf, callers_eq hf] at hanswered
  have hresults : s.arrivals.map (s.results[·]?) = (serially works s.arrivals shared).1.map some := by
    refine List.map_injective_iff.2 (Option.map_injective (f := (Phase.done : ℓ → Phase σ ℓ)) ?_) ?_
    · exact fun _ _ => Phase.done.inj
    · simpa [List.map_map, Function.comp_def] using hanswered
  refine Prod.ext ?_ hcalm.symm
  have hvalues := congrArg (List.filterMap id) hresults
  simpa [List.filterMap_map, Function.comp_def] using hvalues.symm

end Serving

/-! Progress -/

/-- The number of turns that the callers need at most, each waiting apart. -/
def State.remaining (s : State σ ℓ) : Nat := (s.callers.map need).sum

/-- A turn of the caller gets it on. -/
inductive Ready (s : State σ ℓ) (caller : Nat) : Prop
  | away {turns : Nat} {work : Section σ ℓ} (hp : s.callers[caller]? = some (.away turns work))
  | first {work : Section σ ℓ} (hp : s.callers[caller]? = some (.queued work)) (hq : s.queue.head? = some caller)
  | inside {memory : ℓ} {rest : List (Step σ ℓ)} (hp : s.callers[caller]? = some (.inside memory rest))

section

variable {s : State σ ℓ} {caller : Nat}

theorem advance_callers (s : State σ ℓ) (caller : Nat) (memory : ℓ) (rest : List (Step σ ℓ)) :
    ∃ phase, (s.advance caller memory rest).callers = s.callers.set caller phase ∧ need phase ≤ rest.length := by
  cases rest with
  | nil => exact ⟨.done memory, rfl, Nat.le_refl _⟩
  | cons first rest =>
      cases rest with
      | nil => exact ⟨_, rfl, Nat.zero_le _⟩
      | cons next rest =>
          refine ⟨_, rfl, ?_⟩
          simp only [need, List.length_cons]
          omega

theorem Ready.turn_callers (h : Ready s caller) :
    ∃ old new, s.callers[caller]? = some old ∧ (s.turn caller).callers = s.callers.set caller new ∧
      need new < need old := by
  cases h with
  | @away turns work hp =>
      cases turns with
      | succ turns => exact ⟨_, .away turns work, hp, by rw [turn, hp]; rfl, by simp [need]⟩
      | zero =>
          cases hq : s.queue with
          | nil =>
              obtain ⟨new, hnew, hneed⟩ := advance_callers
                (({ s with queue := [caller] }.note (.queued caller)).note (.entered caller))
                caller work.start work.steps
              refine ⟨_, new, hp, ?_, Nat.lt_of_le_of_lt hneed (by simp only [need]; omega)⟩
              simp only [turn, hp, hq]
              exact hnew
          | cons first rest =>
              refine ⟨_, .queued work, hp, ?_, by simp only [need]; omega⟩
              simp [turn, hp, hq, setPhase, note]
  | @first work hp hq =>
      obtain ⟨new, hnew, hneed⟩ := advance_callers (s.note (.entered caller)) caller work.start work.steps
      refine ⟨_, new, hp, ?_, Nat.lt_of_le_of_lt hneed (by simp only [need]; omega)⟩
      simp only [turn, hp, hq, if_true]
      exact hnew
  | @inside memory rest hp =>
      obtain ⟨new, hnew, hneed⟩ := advance_callers s caller memory rest
      refine ⟨_, new, hp, ?_, Nat.lt_of_le_of_lt hneed (by simp only [need]; omega)⟩
      simp only [turn, hp]
      exact hnew

theorem sum_need_set {callers : List (Phase σ ℓ)} {old new : Phase σ ℓ} (hc : callers[caller]? = some old)
    (hneed : need new < need old) : ((callers.set caller new).map need).sum < (callers.map need).sum := by
  induction callers generalizing caller with
  | nil => cases hc
  | cons phase callers ih =>
      cases caller with
      | zero =>
          cases hc
          simpa using hneed
      | succ caller => simpa using ih hc

theorem Ready.remaining_turn (h : Ready s caller) : (s.turn caller).remaining < s.remaining := by
  obtain ⟨old, new, hold, hcallers, hneed⟩ := h.turn_callers
  rw [remaining, hcallers]
  exact sum_need_set hold hneed

theorem turn_of_not_ready (h : ¬Ready s caller) : s.turn caller = s := by
  unfold turn
  split
  case h_1 hp => exact absurd (.away hp) h
  case h_2 hp => exact absurd (.away hp) h
  case h_3 hp =>
    split
    case isTrue hq => exact absurd (.first hp hq) h
    case isFalse => rfl
  case h_4 hp => exact absurd (.inside hp) h
  case h_5 => rfl
  case h_6 => rfl

theorem turns_append (s : State σ ℓ) (first second : List Nat) :
    s.turns (first ++ second) = (s.turns first).turns second :=
  List.foldl_append

theorem Ready.not_finished (h : Ready s caller) : ¬s.finished := by
  intro hf
  have hdone {phase : Phase σ ℓ} (hp : s.callers[caller]? = some phase) : phase.isDone :=
    List.all_eq_true.1 hf _ (List.mem_of_getElem? hp)
  cases h with
  | away hp => exact nomatch hdone hp
  | first hp => exact nomatch hdone hp
  | inside hp => exact nomatch hdone hp

theorem turns_of_finished (hf : s.finished) (order : List Nat) : s.turns order = s := by
  induction order with
  | nil => rfl
  | cons caller order ih =>
      have hturn : s.turn caller = s := turn_of_not_ready fun hready => hready.not_finished hf
      exact (congrArg (·.turns order) hturn).trans ih

/-- Some turns get a caller on, or there is none among them that would. -/
theorem turns_remaining (s : State σ ℓ) (order : List Nat) :
    (s.turns order = s ∧ ∀ caller ∈ order, ¬Ready s caller) ∨ (s.turns order).remaining < s.remaining := by
  induction order generalizing s with
  | nil => exact .inl ⟨rfl, fun _ => nofun⟩
  | cons caller order ih =>
      by_cases hready : Ready s caller
      · have hturn := hready.remaining_turn
        rcases ih (s.turn caller) with ⟨hsame, -⟩ | hless
        · exact .inr (by rwa [turns, List.foldl_cons, ← turns, hsame])
        · exact .inr (hless.trans hturn)
      · have hturns : s.turns (caller :: order) = s.turns order :=
          congrArg (·.turns order) (turn_of_not_ready hready)
        rw [hturns]
        rcases ih s with ⟨hsame, hnone⟩ | hless
        · exact .inl ⟨hsame, List.forall_mem_cons.2 ⟨hready, hnone⟩⟩
        · exact .inr hless

end

namespace Serving

variable {works : List (Section σ ℓ)} {shared : σ} {s : State σ ℓ}

/-- The callers are never stuck. -/
theorem exists_ready (h : Serving works shared s) (hf : ¬s.finished) :
    ∃ caller < works.length, Ready s caller := by
  obtain ⟨phase, hphase, hdone⟩ : ∃ phase ∈ s.callers, ¬phase.isDone := by
    simpa [finished] using hf
  obtain ⟨caller, hlt, hget⟩ := List.getElem_of_mem hphase
  have hp : s.callers[caller]? = some phase := by rw [List.getElem?_eq_getElem hlt, hget]
  obtain ⟨work, hw⟩ := h.exists_work hp
  have hstands := h.stands caller phase work hp hw
  cases phase with
  | away turns w => exact ⟨caller, h.length ▸ hlt, .away hp⟩
  | inside memory rest => exact ⟨caller, h.length ▸ hlt, .inside hp⟩
  | done memory => exact absurd rfl hdone
  | queued w =>
      -- the first of the queue is not this caller, but has neither left nor is it still to queue
      obtain ⟨first, hfirst⟩ : ∃ first, s.queue.head? = some first := by
        cases hq : s.queue with
        | nil => exact nomatch hq ▸ hstands.2
        | cons first rest => exact ⟨first, rfl⟩
      have hmem := mem_queue_of_head hfirst
      have harrived : first ∈ s.arrivals := h.fair ▸ List.mem_append_right _ hmem
      obtain ⟨phase, work, hp, hstands⟩ := h.exists_stands (h.known first harrived)
      refine ⟨first, h.known first harrived, ?_⟩
      cases phase with
      | away turns w => exact .away hp
      | queued w => exact .first hp hfirst
      | inside memory rest => exact .inside hp
      | done memory => exact absurd hstands (h.not_departed_of_queue hmem)

/-- Rounds in which each caller has a turn lead to the end, if there are enough of them. -/
theorem finished_of_rounds (h : Serving works shared s) {rounds : List (List Nat)}
    (hall : ∀ round ∈ rounds, ∀ caller < works.length, caller ∈ round) (hlength : s.remaining ≤ rounds.length) :
    (s.turns rounds.flatten).finished := by
  induction rounds generalizing s with
  | nil =>
      by_contra hf
      obtain ⟨caller, -, hready⟩ := h.exists_ready hf
      exact Nat.not_lt_zero _ (hready.remaining_turn.trans_le hlength)
  | cons round rounds ih =>
      obtain ⟨hround, hrounds⟩ := List.forall_mem_cons.1 hall
      rw [List.flatten_cons, turns_append]
      rcases turns_remaining s round with ⟨hsame, hnone⟩ | hless
      · have hf : s.finished := by
          by_contra hf
          obtain ⟨caller, hlt, hready⟩ := h.exists_ready hf
          exact hnone caller (hround caller hlt) hready
        rwa [hsame, turns_of_finished hf]
      · refine ih (h.turns round) hrounds ?_
        rw [List.length_cons] at hlength
        omega

end Serving

end WebModules.Schedule.Lock
