import Mathlib.Data.List.Forall2
import WebModules.Proofs.Rewrite.Facing

/-!
Reading a text and reading the text that names were filled into, side by side.  Each step that heeds
the literals keeps the two readings alike, so what is read of the one text is read of the other.
-/

namespace WebModules.Rewrite

open Script Lexer Cursor Cut

variable {fills : List (Span × String)} {s s' : State} {c : Context}

/-- Two tokens that were looked at from places that face each other. -/
structure Beheld (fills : List (Span × String)) (c c' : Cursor) (looked looked' : Looked) :
    Prop where
  renewed : Renewed fills looked.lexeme looked'.lexeme
  adjacent : looked'.lexeme.start = c'.pos ↔ looked.lexeme.start = c.pos
  stop : looked.lexeme.stop = looked.after.pos
  stop_other : looked'.lexeme.stop = looked'.after.pos
  after : Faces fills looked.after looked'.after

theorem Faced.beheld {d d' : Cursor} {mode : Mode} {first : Bool}
    (h : Faced fills d d' (scan mode first d) (scan mode first d')) :
    Beheld fills d d' ⟨(scan mode first d).lexeme, (scan mode first d).after⟩
      ⟨(scan mode first d').lexeme, (scan mode first d').after⟩ :=
  ⟨h.renewed, h.adjacent, stop_eq_pos mode first d, stop_eq_pos mode first d', h.after⟩

/-- Two states of readings that have gone the same way so far. -/
structure Mirrors (fills : List (Span × String)) (s s' : State) : Prop where
  place : Faces fills s.place s'.place
  taken : List.Forall₂ (Renewed fills) s.taken s'.taken
  count : s'.count = s.count
  current : Option.Rel (Beheld fills s.place s'.place) s.current? s'.current?
  ahead : Option.Rel (fun looked looked' => ∃ before before', s.current? = some before ∧
    s'.current? = some before' ∧ Beheld fills before.after before'.after looked looked')
    s.ahead? s'.ahead?
  faults : s'.faults.length ≤ s.faults.length
  notes : s'.notes = s.notes
  last : s.lastStop = s.place.pos
  last_other : s'.lastStop = s'.place.pos

theorem optionRel_cases {α β : Type} {r : α → β → Prop} {o : Option α} {o' : Option β}
    (h : Option.Rel r o o') :
    (o = none ∧ o' = none) ∨ ∃ a a', o = some a ∧ o' = some a' ∧ r a a' := by
  cases h with
  | none => exact .inl ⟨rfl, rfl⟩
  | some h => exact .inr ⟨_, _, rfl, rfl, h⟩

theorem look_of_some {looked : Looked} (hs : s.current? = some looked) :
    s.look c = (looked.lexeme, s) := by
  unfold State.look
  rw [hs]

theorem look_of_none (hs : s.current? = none) :
    s.look c = ((scan (State.mode c) (s.count == 0) s.place).lexeme,
      { s.complain c.silent (scan (State.mode c) (s.count == 0) s.place).faults with
        current? := some ⟨(scan (State.mode c) (s.count == 0) s.place).lexeme,
          (scan (State.mode c) (s.count == 0) s.place).after⟩ }) := by
  unfold State.look
  rw [hs]

theorem Mirrors.complain (h : Mirrors fills s s') (silent : Bool) {faults faults' : List Fault}
    (hf : faults'.length ≤ faults.length) :
    Mirrors fills (s.complain silent faults) (s'.complain silent faults') := by
  unfold State.complain
  split
  · exact h
  · refine ⟨h.place, h.taken, h.count, h.current, h.ahead, ?_, h.notes, h.last, h.last_other⟩
    have := h.faults
    simp only [List.length_append, List.length_reverse]
    omega

theorem Mirrors.forget (h : Mirrors fills s s') :
    Mirrors fills { s with ahead? := none } { s' with ahead? := none } :=
  ⟨h.place, h.taken, h.count, h.current, .none, h.faults, h.notes, h.last, h.last_other⟩

theorem Mirrors.behold (h : Mirrors fills s s') (ha : s.ahead? = none) (ha' : s'.ahead? = none)
    {looked looked' : Looked} (hb : Beheld fills s.place s'.place looked looked') :
    Mirrors fills { s with current? := some looked } { s' with current? := some looked' } := by
  refine ⟨h.place, h.taken, h.count, .some hb, ?_, h.faults, h.notes, h.last, h.last_other⟩
  simp only [ha, ha']
  exact .none

theorem Mirrors.beholdAhead (h : Mirrors fills s s') {before before' looked looked' : Looked}
    (hs : s.current? = some before) (hs' : s'.current? = some before')
    (hb : Beheld fills before.after before'.after looked looked') :
    Mirrors fills { s with ahead? := some looked } { s' with ahead? := some looked' } :=
  ⟨h.place, h.taken, h.count, h.current, .some ⟨before, before', hs, hs', hb⟩, h.faults, h.notes,
    h.last, h.last_other⟩

theorem complain_place (silent : Bool) (faults : List Fault) (s : State) :
    (s.complain silent faults).place = s.place := by
  unfold State.complain
  split <;> rfl

theorem complain_current (silent : Bool) (faults : List Fault) (s : State) :
    (s.complain silent faults).current? = s.current? := by
  unfold State.complain
  split <;> rfl

theorem complain_ahead (silent : Bool) (faults : List Fault) (s : State) :
    (s.complain silent faults).ahead? = s.ahead? := by
  unfold State.complain
  split <;> rfl

theorem Mirrors.ahead_eq_none (h : Mirrors fills s s') (hs : s.current? = none) :
    s.ahead? = none ∧ s'.ahead? = none := by
  obtain hnone | ⟨_, _, -, -, before, -, hbefore, -⟩ := optionRel_cases h.ahead
  · exact hnone
  · rw [hs] at hbefore
    cases hbefore

theorem Mirrors.look (h : Mirrors fills s s') (hc : s.heeds (fills.map Prod.fst) c) :
    Mirrors fills (s.look c).2 (s'.look c).2 ∧ ∃ looked looked',
      (s.look c).2.current? = some looked ∧ (s'.look c).2.current? = some looked' ∧
      looked.lexeme = (s.look c).1 ∧ looked'.lexeme = (s'.look c).1 ∧
      Beheld fills s.place s'.place looked looked' := by
  obtain ⟨hs, hs'⟩ | ⟨looked, looked', hs, hs', hb⟩ := optionRel_cases h.current
  · unfold State.heeds at hc
    rw [look_of_none hs] at hc ⊢
    rw [look_of_none hs', h.count]
    have hfaced := h.place.scan _ _ hc
    obtain ⟨ha, ha'⟩ := h.ahead_eq_none hs
    refine ⟨(h.complain c.silent hfaced.faults).behold ?_ ?_ ?_, _, _, rfl, rfl, rfl, rfl,
      hfaced.beheld⟩
    · rw [complain_ahead, ha]
    · rw [complain_ahead, ha']
    · rw [complain_place, complain_place]
      exact hfaced.beheld
  · rw [look_of_some hs, look_of_some hs']
    exact ⟨h, looked, looked', hs, hs', rfl, rfl, hb⟩

theorem Mirrors.lookAhead (h : Mirrors fills s s') (hc : s.heedsAhead (fills.map Prod.fst) c) :
    Renewed fills (s.lookAhead c).1 (s'.lookAhead c).1 ∧
      Mirrors fills (s.lookAhead c).2 (s'.lookAhead c).2 := by
  obtain ⟨hc, hahead⟩ := Bool.and_eq_true_iff.1 hc
  obtain ⟨ht, before, before', hbefore, hbefore', hlexeme, -, hb⟩ := h.look hc
  unfold State.lookAhead at hahead ⊢
  dsimp only at hahead ⊢
  obtain ⟨hnone, hnone'⟩ | ⟨looked, looked', hs, hs', _, _, hsame, hsame', hl⟩ :=
    optionRel_cases ht.ahead
  · rw [hnone, hbefore] at hahead
    rw [hnone, hnone', hbefore, hbefore']
    rw [← hlexeme, hb.stop] at hahead
    have hfaced := hb.after.scan _ _ hahead
    refine ⟨hfaced.renewed, (ht.complain c.silent hfaced.faults).beholdAhead ?_ ?_ hfaced.beheld⟩
    · rw [complain_current, hbefore]
    · rw [complain_current, hbefore']
  · rw [hs, hs']
    exact ⟨hl.renewed, ht⟩

theorem Mirrors.take (h : Mirrors fills s s') (hc : s.heeds (fills.map Prod.fst) c) :
    Mirrors fills (s.take c) (s'.take c) := by
  obtain ⟨ht, looked, looked', hs, hs', -, -, hb⟩ := h.look hc
  unfold State.take
  dsimp only
  rw [hs, hs']
  dsimp only
  rw [hb.renewed.token]
  split
  · exact ht
  · refine ⟨hb.after, .cons hb.renewed ht.taken, congrArg (· + 1) ht.count, ?_, .none, ht.faults,
      ht.notes, hb.stop, hb.stop_other⟩
    obtain ⟨hnone, hnone'⟩ | ⟨_, _, hnext, hnext', before, before', hbefore, hbefore', hl⟩ :=
      optionRel_cases ht.ahead
    · rw [hnone, hnone']
      exact .none
    · rw [hs] at hbefore
      rw [hs'] at hbefore'
      cases hbefore
      cases hbefore'
      rw [hnext, hnext']
      exact .some hl

theorem Mirrors.rescan {how : Rescan} (h : Mirrors fills s s')
    (hc : (s.rescan c how).heeds (fills.map Prod.fst) c) :
    Mirrors fills (s.rescan c how) (s'.rescan c how) := by
  unfold State.rescan at hc ⊢
  dsimp only at hc ⊢
  unfold State.heeds at hc
  rw [look_of_some rfl, complain_place] at hc
  have hfaced := h.place.scan _ _ hc
  rw [h.count]
  refine ((h.complain c.silent hfaced.faults).forget).behold rfl rfl ?_
  rw [complain_place, complain_place]
  exact hfaced.beheld

theorem Mirrors.token? (h : Mirrors fills s s') (number : Nat) :
    Option.Rel (Renewed fills) (s.token? number) (s'.token? number) := by
  unfold State.token?
  rw [h.count]
  split
  · generalize s.count - 1 - number = n
    have htaken := h.taken
    generalize s.taken = ls, s'.taken = ls' at htaken
    induction htaken generalizing n with
    | nil => exact .none
    | cons hl _ ih =>
        cases n with
        | zero => exact .some hl
        | succ n => exact ih n
  · exact .none

theorem mirrors_kept (fills : List (Span × String)) :
    Kept (fills.map Prod.fst) (Mirrors fills) where
  look h hc := by
    obtain ⟨ht, looked, looked', -, -, hl, hl', hb⟩ := h.look hc
    exact ⟨hl ▸ hl' ▸ hb.renewed.like, ht⟩
  lookAhead h hc := ⟨(h.lookAhead hc).1.like, (h.lookAhead hc).2⟩
  take h hc := h.take hc
  rescan h hc := h.rescan hc
  complain silent _ _ hf h := h.complain silent (Nat.le_of_eq hf)
  note change h := ⟨h.place, h.taken, h.count, h.current, h.ahead, h.faults,
    congrArg change h.notes, h.last, h.last_other⟩
  notes h := h.notes
  count h := h.count
  current h := by
    obtain ⟨hs, hs'⟩ | ⟨_, _, hs, hs', hb⟩ := optionRel_cases h.current
    · rw [hs, hs']
      exact .none
    · rw [hs, hs']
      exact .some hb.renewed.like
  adjacent h hc := by
    obtain ⟨-, looked, looked', -, -, hl, hl', hb⟩ := h.look hc
    rw [h.last, h.last_other, ← hl, ← hl', Bool.eq_iff_iff, beq_iff_eq, beq_iff_eq]
    exact hb.adjacent
  string h hother := by
    obtain ⟨hs, hs'⟩ | ⟨_, _, hs, hs', hl⟩ := optionRel_cases (h.token? _)
    · rw [hs, hs']
      exact .none
    · rw [hs] at hother
      rw [hs, hs']
      have hkept := hl.kept (not_mem_of_isOther hother)
      exact .some ⟨hkept.1, hkept.2.1⟩
  flags h hc hother := by
    obtain ⟨-, looked, looked', -, -, hl, hl', hb⟩ := h.look hc
    rw [← hl] at hother ⊢
    rw [← hl']
    exact (hb.renewed.kept (not_mem_of_isOther hother)).2.1

end WebModules.Rewrite
