import WebModules.Script.Parse

/-!
What every clause does to a state comes down to a few steps: looking at tokens, taking one, and
noting something.  A relation between states that each of these respects is respected by every
clause of the grammar.
-/

namespace WebModules.Script

variable {α β σ : Type}

/-- The state that reading ends in. -/
def Outcome.state : Outcome α → State
  | .read _ s => s
  | .failed _ s => s

@[simp] theorem Outcome.state_read (a : α) (s : State) : (Outcome.read a s).state = s := rfl

@[simp] theorem Outcome.state_failed (fault : Fault) (s : State) :
    (Outcome.failed fault s : Outcome α).state = s := rfl

/-- A relation between the state before and after something was read, which every step respects. -/
structure Respected (r : State → State → Prop) : Prop where
  refl : ∀ s, r s s
  trans : ∀ {s t u}, r s t → r t u → r s u
  look : ∀ c s, r s (s.look c).2
  lookAhead : ∀ c s, r s (s.lookAhead c).2
  take : ∀ c s, r s (s.take c)
  rescan : ∀ c how s, r s (s.rescan c how)
  complain : ∀ silent faults s, r s (s.complain silent faults)
  note : ∀ (change : Notes → Notes) s, r s { s with notes := change s.notes }

namespace Respected

variable {r : State → State → Prop} (h : Respected r)

include h

theorem faultAt (c : Context) (place : Place) (complaint : Complaint) (s : State) :
    r s (s.faultAt c place complaint).2 := h.look c s

theorem passMalformed (c : Context) (s : State) : r s (s.passMalformed c) := by
  unfold State.passMalformed
  split
  · exact h.refl s
  · split
    · exact h.trans (h.take c s) (h.complain _ _ _)
    · exact h.refl s

theorem report (c : Context) (place : Place) (complaint : Complaint) (s : State) :
    r s (s.report c place complaint) := by
  unfold State.report
  split
  · exact h.refl s
  · exact h.trans (h.faultAt c place complaint s)
      (h.trans (h.passMalformed c _) (h.complain _ _ _))

theorem repeated (c : Context) {step : σ → State → Outcome (σ ⊕ α)}
    (hs : ∀ x s, r s (step x s).state) (limit : Nat) (x : σ) (s : State) :
    r s (State.repeated c step limit x s).state := by
  induction limit generalizing x s with
  | zero => exact h.faultAt c .here .tooDeep s
  | succ n ih =>
      have hx := hs x s
      unfold State.repeated
      split
      · rename_i y t ht
        rw [ht] at hx
        exact h.trans hx (ih y t)
      · rename_i ht
        rwa [ht] at hx
      · rename_i ht
        rwa [ht] at hx

theorem exec {call : {α : Type} → Rule α → Context → State → Outcome α} {limit : Nat}
    (hc : ∀ {α : Type} (rule : Rule α) c s, r s (call rule c s).state) (p : Clause α) (c : Context)
    (s : State) : r s (p.exec call limit c s).state := by
  induction p generalizing c s with
  | pure | mark | testString | context | notes => exact h.refl s
  | current | lineBreak | adjacent | regexFlags => exact h.look c s
  | ahead | lineBreakAhead => exact h.lookAhead c s
  | take => exact h.take c s
  | rescan how => exact h.rescan c how s
  | note change => exact h.note change s
  | report place complaint => exact h.report c place complaint s
  | fail place complaint => exact h.trans (h.faultAt c place complaint s) (h.passMalformed c _)
  | failUncooked => exact h.faultAt c .here .unterminatedTemplate s
  | rule rule => exact hc rule c s
  | within change p ih => exact ih (change c) s
  | repeating step start ih => exact h.repeated c (fun x s => ih x c s) limit start s
  | failMalformed pass =>
      simp only [Clause.exec, Outcome.state_failed]
      split
      · exact h.trans (h.look c s) (h.take c _)
      · exact h.look c s
  | bind p f ihp ihf =>
      have hp := ihp c s
      simp only [Clause.exec]
      split
      · rename_i a t ht
        rw [ht] at hp
        exact h.trans hp (ihf a c t)
      · rename_i ht
        rwa [ht] at hp
  | rescued p rescue ihp ihr =>
      have hp := ihp c s
      simp only [Clause.exec]
      split
      · rename_i ht
        rwa [ht] at hp
      · rename_i fault t ht
        rw [ht] at hp
        have hr := ihr c t
        split
        · rename_i hu
          rw [hu] at hr
          exact h.trans hp (h.trans hr (h.complain _ _ _))
        · rename_i hu
          rw [hu] at hr
          exact h.trans hp hr
        · rename_i hu
          rw [hu] at hr
          exact h.trans hp hr
  | attempt p ih =>
      have hp := ih { c with silent := true } s
      simp only [Clause.exec]
      split
      · rename_i ht
        rwa [ht] at hp
      · exact h.refl s
      · exact h.refl s
  | foresee p ih =>
      simp only [Clause.exec]
      split <;> exact h.refl s

theorem execRule (limit depth : Nat) (rule : Rule α) (c : Context) (s : State) :
    r s (Clause.execRule limit depth rule c s).state := by
  induction depth generalizing α c s with
  | zero => exact h.faultAt c .here .tooDeep s
  | succ depth ih => exact h.exec ih rule.clause c s

end Respected

/-- The state after tokens have been read, and their number been counted. -/
structure Advances (s t : State) : Prop where
  taken : s.taken <:+ t.taken
  count : s.count = s.taken.length → t.count = t.taken.length

theorem Advances.of_eq {s t : State} (ht : t.taken = s.taken) (hc : t.count = s.count) :
    Advances s t :=
  ⟨ht ▸ List.suffix_rfl, fun h => by rw [ht, hc, h]⟩

theorem look_eq (c : Context) (s : State) :
    (s.look c).2.taken = s.taken ∧ (s.look c).2.count = s.count := by
  unfold State.look State.complain
  split
  · exact ⟨rfl, rfl⟩
  · dsimp only
    split <;> exact ⟨rfl, rfl⟩

theorem look_current (c : Context) (s : State) :
    (s.look c).2.current?.map Looked.lexeme = some (s.look c).1 := by
  unfold State.look
  split
  · rename_i h
    simp [h]
  · rfl

theorem look_look (c : Context) (s : State) : (s.look c).2.look c = s.look c := by
  obtain ⟨looked, hl, he⟩ := Option.map_eq_some_iff.1 (look_current c s)
  have h : (s.look c).2.look c = (looked.lexeme, (s.look c).2) := by
    unfold State.look at hl ⊢
    simp only [hl]
  rw [h, he]

theorem take_finish {c : Context} {s : State} (h : (s.look c).1.token = .finish) :
    s.take c = (s.look c).2 := by
  obtain ⟨looked, hl, he⟩ := Option.map_eq_some_iff.1 (look_current c s)
  unfold State.take
  simp only [hl]
  rw [if_pos (by rw [he, h])]

theorem take_token {c : Context} {s : State} (h : (s.look c).1.token ≠ .finish) :
    (s.take c).taken = (s.look c).1 :: s.taken ∧ (s.take c).count = s.count + 1 := by
  obtain ⟨looked, hl, he⟩ := Option.map_eq_some_iff.1 (look_current c s)
  unfold State.take
  simp only [hl]
  rw [if_neg (by rwa [he])]
  exact ⟨by rw [he, (look_eq c s).1], by rw [(look_eq c s).2]⟩

theorem advances_respected : Respected Advances where
  refl s := .of_eq rfl rfl
  trans h h' := ⟨h.taken.trans h'.taken, fun he => h'.count (h.count he)⟩
  look c s := .of_eq (look_eq c s).1 (look_eq c s).2
  lookAhead c s := by
    have h := look_eq c s
    unfold State.lookAhead State.complain
    dsimp only
    split
    · exact .of_eq h.1 h.2
    · dsimp only
      split <;> exact .of_eq h.1 h.2
  take c s := by
    by_cases h : (s.look c).1.token = .finish
    · rw [take_finish h]
      exact .of_eq (look_eq c s).1 (look_eq c s).2
    · obtain ⟨ht, hc⟩ := take_token h
      exact ⟨by simp [ht], fun he => by simp [ht, hc, he]⟩
  rescan c how s := by
    unfold State.rescan State.complain
    dsimp only
    split <;> exact .of_eq rfl rfl
  complain silent faults s := by
    unfold State.complain
    split <;> exact .of_eq rfl rfl
  note change s := .of_eq rfl rfl

theorem Advances.count_le {s t : State} (h : Advances s t) (hs : s.count = s.taken.length) :
    s.count ≤ t.count := by
  rw [hs, h.count hs]
  exact h.taken.length_le

end WebModules.Script
