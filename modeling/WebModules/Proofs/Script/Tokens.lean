import WebModules.Proofs.Script.Lexer
import WebModules.Proofs.Script.Parse

/-!
The tokens that a text is read as lie in it one after the other.
-/

namespace WebModules.Script

open Lexer

variable {start : Cursor}

/-- Tokens, the last one first, that lie one after the other between two places. -/
inductive Chain (start : Cursor) : List Lexeme → Cursor → Prop
  | nil : Chain start [] start
  | cons {lexeme : Lexeme} {taken : List Lexeme} {c d : Cursor} (rest : Chain start taken c)
      (lies : Lies lexeme c d) : Chain start (lexeme :: taken) d

/-- Every token lies after the start, and ends before the place that the tokens lead to. -/
theorem Chain.lies {taken : List Lexeme} {d : Cursor} (h : Chain start taken d) :
    ∀ lexeme ∈ taken, ∃ c, Lies lexeme start c ∧ c.Reaches d := by
  induction h with
  | nil => simp
  | @cons lexeme taken c d rest lies ih =>
      have hstart : start.Reaches c := by
        cases rest with
        | nil => exact .refl start
        | cons rest' lies' =>
            obtain ⟨c', ⟨b, hb, hc', -⟩, hreach⟩ := ih _ (List.mem_cons_self ..)
            exact (hb.trans hc').trans hreach
      obtain ⟨b, hb, hd, hlexeme⟩ := lies
      intro other hother
      obtain rfl | hother := List.mem_cons.1 hother
      · exact ⟨d, ⟨b, hstart.trans hb, hd, hlexeme⟩, .refl d⟩
      · obtain ⟨c', hc', hreach⟩ := ih other hother
        exact ⟨c', hc', hreach.trans (hb.trans hd)⟩

theorem Lexer.Lies.start_le {lexeme : Lexeme} {c d : Cursor} (h : Lies lexeme c d) :
    lexeme.start ≤ lexeme.stop := by
  obtain ⟨b, -, hd, hs, he, -⟩ := h
  rw [hs, he]
  exact hd.pos_le

/-- Of two tokens the one read later starts where the other ends, or after that. -/
theorem Chain.pairwise {taken : List Lexeme} {d : Cursor} (h : Chain start taken d) :
    taken.Pairwise fun later earlier => earlier.stop ≤ later.start := by
  induction h with
  | nil => exact .nil
  | cons rest lies ih =>
      refine .cons (fun earlier he => ?_) ih
      obtain ⟨c', ⟨_, _, _, _, hstop, _⟩, hreach⟩ := rest.lies earlier he
      obtain ⟨b, hb, -, hs, -⟩ := lies
      rw [hstop, hs]
      exact (hreach.trans hb).pos_le

/-- A token that has been looked at is the one that is read at a place, in some way.  `first` tells that
no token precedes it. -/
def Looked.At (looked : Looked) (first : Bool) (c : Cursor) : Prop :=
  ∃ mode, looked = ⟨(scan mode first c).lexeme, (scan mode first c).after⟩

theorem Looked.At.lies {looked : Looked} {first : Bool} {c : Cursor} (h : looked.At first c) :
    Lies looked.lexeme c looked.after := by
  obtain ⟨mode, rfl⟩ := h
  exact scan_lies mode first c

/-- What has been read of a text and looked at lies in it in order. -/
structure Placed (start : Cursor) (s : State) : Prop where
  chain : Chain start s.taken s.place
  current : ∀ looked, s.current? = some looked → looked.At (s.count == 0) s.place
  ahead : ∀ looked, s.ahead? = some looked → ∃ before, s.current? = some before ∧ looked.At false before.after

theorem complain_eq (silent : Bool) (faults : List Fault) (s : State) :
    ∃ noted, s.complain silent faults = { s with faults := noted } := by
  unfold State.complain
  split <;> exact ⟨_, rfl⟩

theorem Placed.complain {s : State} (h : Placed start s) (silent : Bool) (faults : List Fault) :
    Placed start (s.complain silent faults) := by
  obtain ⟨noted, hs⟩ := complain_eq silent faults s
  rw [hs]
  exact ⟨h.chain, h.current, h.ahead⟩

theorem Placed.look {s : State} (h : Placed start s) (c : Context) : Placed start (s.look c).2 := by
  unfold State.look
  split
  · exact h
  · rename_i hnone
    dsimp only
    obtain ⟨noted, hs⟩ := complain_eq c.silent
      (scan (State.mode c) (s.count == 0) s.place).faults s
    rw [hs]
    refine ⟨h.chain, ?_, ?_⟩
    · rintro looked ⟨⟩
      exact ⟨_, rfl⟩
    · intro looked hl
      obtain ⟨before, hb, -⟩ := h.ahead looked hl
      rw [hnone] at hb
      cases hb

theorem Placed.lookAhead {s : State} (h : Placed start s) (c : Context) :
    Placed start (s.lookAhead c).2 := by
  have hlook := h.look c
  obtain ⟨before, hb, -⟩ := Option.map_eq_some_iff.1 (look_current c s)
  unfold State.lookAhead
  dsimp only
  split
  · exact hlook
  · rw [hb]
    dsimp only [Option.map_some, Option.getD_some]
    obtain ⟨noted, hs⟩ := complain_eq c.silent
      (scan (State.mode c) false before.after).faults (s.look c).2
    rw [hs]
    refine ⟨hlook.chain, hlook.current, ?_⟩
    rintro looked ⟨⟩
    exact ⟨before, hb, _, rfl⟩

theorem Placed.take {s : State} (h : Placed start s) (c : Context) : Placed start (s.take c) := by
  have hlook := h.look c
  unfold State.take
  dsimp only
  split
  · exact hlook
  · rename_i looked hl
    split
    · exact hlook
    · refine ⟨.cons hlook.chain (hlook.current looked hl).lies, ?_, ?_⟩
      · intro next hn
        obtain ⟨before, hb, hat⟩ := hlook.ahead next hn
        rw [hl] at hb
        cases hb
        exact hat
      · intro next hn
        cases hn

theorem Placed.rescan {s : State} (h : Placed start s) (c : Context) (how : Rescan) :
    Placed start (s.rescan c how) := by
  unfold State.rescan
  dsimp only
  obtain ⟨noted, hs⟩ := complain_eq c.silent
    (scan (State.rescanMode c how) (s.count == 0) s.place).faults s
  rw [hs]
  refine ⟨h.chain, ?_, ?_⟩
  · rintro looked ⟨⟩
    exact ⟨_, rfl⟩
  · intro looked hl
    cases hl

/-- Where a slash has been looked at, what is read in its place as a regular expression is there. -/
theorem Placed.rescan_regex {start : Cursor} {s : State} {looked : Looked} (h : Placed start s)
    (hl : s.current? = some looked) (hs : IsSlash looked.lexeme.token) (c c' : Context) :
    ((s.rescan c .regex).look c').1.token ≠ .finish := by
  obtain ⟨mode, rfl⟩ := h.current looked hl
  exact scan_regex hs

theorem placed_respected (start : Cursor) :
    Respected (fun s t => Placed start s → Placed start t) where
  refl _ := id
  trans h h' := h' ∘ h
  look c _ h := h.look c
  lookAhead c _ h := h.lookAhead c
  take c _ h := h.take c
  rescan c how _ h := h.rescan c how
  complain silent faults _ h := h.complain silent faults
  note _ _ h := ⟨h.chain, h.current, h.ahead⟩

theorem parseFrom_chain {origin : Nat} {text : List Char} {p : Parsed}
    (h : parseFrom origin text = .ok p) :
    ∃ stop, Chain ⟨text, origin⟩ p.tokens.toList.reverse stop := by
  obtain ⟨s, hs, htokens⟩ := parseFrom_read h
  have hstart : Placed ⟨text, origin⟩ { place := ⟨text, origin⟩ } := ⟨.nil, by simp, by simp⟩
  have hr := placed_respected ⟨text, origin⟩
  have hplaced : Placed ⟨text, origin⟩ (Outcome.read p.tree s).state :=
    hs ▸ hr.exec (hr.execRule (readingLimit text) (readingLimit text)) Clause.module {} _ hstart
  exact ⟨s.place, by simpa [htokens] using hplaced.chain⟩

section Parsed

variable {origin : Nat} {text : List Char} {p : Parsed} (h : parseFrom origin text = .ok p)

include h

theorem parseFrom_lies {lexeme : Lexeme} (hl : lexeme ∈ p.tokens) :
    ∃ d, Lies lexeme ⟨text, origin⟩ d := by
  obtain ⟨stop, hstop⟩ := parseFrom_chain h
  obtain ⟨c, hc, -⟩ := hstop.lies lexeme (by simpa using hl)
  exact ⟨c, hc⟩

theorem parseFrom_stop_le {i j : Nat} {a b : Lexeme} (hij : i < j) (hi : p.tokens[i]? = some a)
    (hj : p.tokens[j]? = some b) : a.stop ≤ b.start := by
  obtain ⟨stop, hstop⟩ := parseFrom_chain h
  have hp := List.pairwise_reverse.1 hstop.pairwise
  rw [← Array.getElem?_toList] at hi hj
  obtain ⟨hi', rfl⟩ := List.getElem?_eq_some_iff.1 hi
  obtain ⟨hj', rfl⟩ := List.getElem?_eq_some_iff.1 hj
  exact List.pairwise_iff_getElem.1 hp i j hi' hj' hij

theorem start_le_start {i j : Nat} {a b : Lexeme} (hij : i ≤ j) (hi : p.tokens[i]? = some a)
    (hj : p.tokens[j]? = some b) : a.start ≤ b.start := by
  obtain rfl | hlt := Nat.eq_or_lt_of_le hij
  · rw [hi] at hj
    cases hj
    exact Nat.le_refl _
  · obtain ⟨_, ha⟩ := parseFrom_lies h (Array.mem_of_getElem? hi)
    exact Nat.le_trans ha.start_le (parseFrom_stop_le h hlt hi hj)

theorem stop_le_stop {i j : Nat} {a b : Lexeme} (hij : i ≤ j) (hi : p.tokens[i]? = some a)
    (hj : p.tokens[j]? = some b) : a.stop ≤ b.stop := by
  obtain rfl | hlt := Nat.eq_or_lt_of_le hij
  · rw [hi] at hj
    cases hj
    exact Nat.le_refl _
  · obtain ⟨_, hb⟩ := parseFrom_lies h (Array.mem_of_getElem? hj)
    exact Nat.le_trans (parseFrom_stop_le h hlt hi hj) hb.start_le

/-- The first and the last token of some tokens in a row have all of them between their ends. -/
theorem exists_ends {first number stop : Nat} {l : Lexeme} (hfirst : first ≤ number) (hlast : number < stop)
    (hstop : stop ≤ p.tokens.size) (hl : p.tokens[number]? = some l) :
    ∃ a b, p.tokens[first]? = some a ∧ p.tokens[stop - 1]? = some b ∧ a.start ≤ l.start ∧ l.stop ≤ b.stop := by
  have hbounds : first < p.tokens.size ∧ stop - 1 < p.tokens.size := by omega
  have ha := Array.getElem?_eq_getElem hbounds.1
  have hb := Array.getElem?_eq_getElem hbounds.2
  exact ⟨_, _, ha, hb, start_le_start h hfirst ha hl, stop_le_stop h (Nat.le_sub_one_of_lt hlast) hl hb⟩

end Parsed

end WebModules.Script
