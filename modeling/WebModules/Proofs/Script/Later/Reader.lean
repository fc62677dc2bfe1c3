import WebModules.Proofs.Script.Later.Lexer
import WebModules.Script.Parse

/-!
A clause reads a text in the same way wherever the text stands, so a module is the same module with
more bytes before it.
-/

namespace WebModules.Script

def Looked.later (n : Nat) (l : Looked) : Looked := ⟨l.lexeme.later n, l.after.later n⟩

def State.later (n : Nat) (s : State) : State :=
  { s with
    place := s.place.later n
    taken := s.taken.map (Lexeme.later n)
    current? := s.current?.map (Looked.later n)
    ahead? := s.ahead?.map (Looked.later n)
    faults := s.faults.map (Fault.later n) }

def Outcome.later {α : Type} (n : Nat) : Outcome α → Outcome α
  | .read a s => .read a (s.later n)
  | .failed fault s => .failed (fault.later n) (s.later n)

@[simp] theorem Lexeme.description_later (n : Nat) (l : Lexeme) : (l.later n).description = l.description := rfl

namespace State

variable (n : Nat) (c : Context) (s : State)

@[simp] theorem later_place : (s.later n).place = s.place.later n := rfl
@[simp] theorem later_taken : (s.later n).taken = s.taken.map (Lexeme.later n) := rfl
@[simp] theorem later_count : (s.later n).count = s.count := rfl
@[simp] theorem later_current : (s.later n).current? = s.current?.map (Looked.later n) := rfl
@[simp] theorem later_ahead : (s.later n).ahead? = s.ahead?.map (Looked.later n) := rfl
@[simp] theorem later_notes : (s.later n).notes = s.notes := rfl

@[simp] theorem complain_later (silent : Bool) (faults : List Fault) :
    (s.later n).complain silent (faults.map (Fault.later n)) = (s.complain silent faults).later n := by
  unfold complain
  split
  · rfl
  · simp [later]

@[simp] theorem look_later : (s.later n).look c = ((s.look c).1.later n, (s.look c).2.later n) := by
  unfold look
  cases hcurrent : s.current? with
  | some looked => simp [hcurrent, Looked.later]
  | none =>
      simp only [later_current, hcurrent, Option.map_none, later_count, later_place, Lexer.scan_later, Lexer.Scanned.later,
        complain_later]
      rfl

@[simp] theorem lookAhead_later : (s.later n).lookAhead c = ((s.lookAhead c).1.later n, (s.lookAhead c).2.later n) := by
  unfold lookAhead
  simp only [look_later]
  generalize (s.look c).2 = t
  cases hahead : t.ahead? with
  | some looked => simp [hahead, Looked.later]
  | none =>
      have hfrom : ((t.later n).current?.map Looked.after).getD (t.later n).place =
          ((t.current?.map Looked.after).getD t.place).later n := by
        cases hcurrent : t.current? <;> simp [hcurrent, Looked.later]
      simp only [hfrom, later_ahead, hahead, Option.map_none, Lexer.scan_later, Lexer.Scanned.later, complain_later]
      rfl

@[simp] theorem take_later : (s.later n).take c = (s.take c).later n := by
  unfold take
  simp only [look_later]
  generalize (s.look c).2 = t
  cases hcurrent : t.current? with
  | none => simp [hcurrent]
  | some looked =>
      simp only [later_current, hcurrent, Option.map_some, apply_ite (State.later n)]
      rfl

@[simp] theorem rescan_later (how : Rescan) : (s.later n).rescan c how = (s.rescan c how).later n := by
  unfold rescan
  simp only [later_count, later_place, Lexer.scan_later, Lexer.Scanned.later, complain_later]
  rfl

@[simp] theorem lastStop_later : (s.later n).lastStop = s.lastStop + n := by
  unfold lastStop last?
  cases htaken : s.taken <;> simp [htaken, Lexeme.later]

@[simp] theorem token?_later (number : Nat) : (s.later n).token? number = (s.token? number).map (Lexeme.later n) := by
  unfold token?
  simp only [later_count, later_taken, List.getElem?_map]
  split <;> rfl

theorem fault_later (place : Place) (complaint : Complaint) (current : Lexeme) :
    (s.later n).fault place complaint (current.later n) = (s.fault place complaint current).later n := by
  have htoken : (current.later n).token = current.token := rfl
  have hstart : (current.later n).start = current.start + n := rfl
  have hstarts : ((s.later n).last?.map Lexeme.start).getD (current.start + n) =
      (s.last?.map Lexeme.start).getD current.start + n := by
    unfold last?
    cases htaken : s.taken <;> simp [htaken, Lexeme.later]
  unfold fault
  cases place with
  | here =>
      simp only [htoken, hstart, hstarts, Lexeme.description_later, ← apply_ite (· + n)]
      rfl
  | token number =>
      simp only [token?_later]
      cases s.token? number with
      | some lexeme => cases complaint <;> rfl
      | none =>
          simp only [Option.map_none, htoken, hstart, lastStop_later, Lexeme.description_later, ← apply_ite (· + n)]
          rfl
  | afterLast =>
      simp only [lastStop_later, Lexeme.description_later]
      rfl

@[simp] theorem faultAt_later (place : Place) (complaint : Complaint) :
    (s.later n).faultAt c place complaint =
      ((s.faultAt c place complaint).1.later n, (s.faultAt c place complaint).2.later n) := by
  simp only [faultAt, look_later, fault_later]

@[simp] theorem passMalformed_later : (s.later n).passMalformed c = (s.passMalformed c).later n := by
  unfold passMalformed
  cases hcurrent : s.current? with
  | none => simp [hcurrent]
  | some looked =>
      have hfault : (looked.lexeme.later n).fault?.toList = looked.lexeme.fault?.toList.map (Fault.later n) := by
        cases hown : looked.lexeme.fault? <;> simp [Lexeme.later, hown]
      simp only [later_current, hcurrent, Option.map_some, take_later, Looked.later, hfault, complain_later,
        apply_ite (State.later n)]
      rfl

@[simp] theorem report_later (place : Place) (complaint : Complaint) :
    (s.later n).report c place complaint = (s.report c place complaint).later n := by
  unfold report
  have hcomplain := ((s.faultAt c place complaint).2.passMalformed c).complain_later n c.silent
    [(s.faultAt c place complaint).1]
  simp only [faultAt_later, passMalformed_later, apply_ite (State.later n), ← hcomplain]
  rfl

theorem repeated_later {α σ : Type} {step : σ → State → Outcome (σ ⊕ α)}
    (hstep : ∀ x s, step x (s.later n) = (step x s).later n) (limit : Nat) (start : σ) :
    repeated c step limit start (s.later n) = (repeated c step limit start s).later n := by
  induction limit generalizing start s with
  | zero =>
      simp only [repeated, faultAt_later]
      rfl
  | succ limit ih =>
      simp only [repeated, hstep]
      cases step start s with
      | failed fault t => rfl
      | read next t =>
          cases next with
          | inl x => exact ih t x
          | inr a => rfl

end State

namespace Clause

variable {call : {α : Type} → Rule α → Context → State → Outcome α} {n : Nat}

theorem exec_later (hcall : ∀ {α : Type} (rule : Rule α) c s, call rule c (s.later n) = (call rule c s).later n)
    (limit : Nat) {α : Type} (p : Clause α) (c : Context) (s : State) :
    p.exec call limit c (s.later n) = (p.exec call limit c s).later n := by
  induction p generalizing c s with
  | pure | mark | context | notes | note => rfl
  | current | lineBreak | regexFlags =>
      simp only [exec, State.look_later]
      rfl
  | ahead | lineBreakAhead =>
      simp only [exec, State.lookAhead_later]
      rfl
  | adjacent =>
      have hstart : (((s.look c).1.later n).start == (s.look c).2.lastStop + n) =
          ((s.look c).1.start == (s.look c).2.lastStop) := by
        rw [Bool.eq_iff_iff, beq_iff_eq, beq_iff_eq]
        exact Nat.add_right_cancel_iff
      simp only [exec, State.look_later, State.lastStop_later, hstart]
      rfl
  | take =>
      simp only [exec, State.take_later]
      rfl
  | rescan how =>
      simp only [exec, State.rescan_later]
      rfl
  | testString number test =>
      simp only [exec, State.token?_later]
      cases s.token? number with
      | none => rfl
      | some lexeme => cases test <;> rfl
  | report place complaint =>
      simp only [exec, State.report_later]
      rfl
  | fail place complaint =>
      simp only [exec, State.faultAt_later, State.passMalformed_later]
      rfl
  | failMalformed pass =>
      have hfault : ((s.look c).1.later n).fault?.getD
          (((s.look c).2.later n).fault .here .expressionExpected ((s.look c).1.later n)) =
          ((s.look c).1.fault?.getD ((s.look c).2.fault .here .expressionExpected (s.look c).1)).later n := by
        rw [State.fault_later]
        cases hown : (s.look c).1.fault? <;> simp [Lexeme.later, hown]
      simp only [exec, State.look_later, hfault, State.take_later, ← apply_ite (State.later n)]
      rfl
  | failUncooked number =>
      have hfault : (((s.faultAt c .here .unterminatedTemplate).2.later n).token? number).bind Lexeme.fault? =
          (((s.faultAt c .here .unterminatedTemplate).2.token? number).bind Lexeme.fault?).map (Fault.later n) := by
        rw [State.token?_later]
        cases (s.faultAt c .here .unterminatedTemplate).2.token? number <;> rfl
      simp only [exec, State.faultAt_later, hfault]
      cases ((s.faultAt c .here .unterminatedTemplate).2.token? number).bind Lexeme.fault? <;> rfl
  | rule rule => exact hcall rule c s
  | within change p ih => exact ih (change c) s
  | repeating step start ih => exact s.repeated_later n c (fun x t => ih x c t) limit start
  | bind p next ihp ihn =>
      simp only [exec, ihp]
      cases p.exec call limit c s with
      | read a t => exact ihn a c t
      | failed fault t => rfl
  | rescued p rescue ihp ihr =>
      simp only [exec, ihp]
      cases p.exec call limit c s with
      | read a t => rfl
      | failed fault t =>
          simp only [Outcome.later, ihr]
          cases rescue.exec call limit c t with
          | failed other u => rfl
          | read a u =>
              cases a with
              | none => rfl
              | some a =>
                  have hcomplain := u.complain_later n c.silent [fault]
                  exact congrArg (Outcome.read a) hcomplain
  | attempt p ih =>
      simp only [exec, ih]
      cases p.exec call limit { c with silent := true } s with
      | failed fault t => rfl
      | read a t => cases a <;> rfl
  | foresee p ih =>
      simp only [exec, ih]
      cases p.exec call limit { c with silent := true } s <;> rfl

theorem execRule_later (n limit depth : Nat) {α : Type} (rule : Rule α) (c : Context) (s : State) :
    execRule limit depth rule c (s.later n) = (execRule limit depth rule c s).later n := by
  induction depth generalizing α c s with
  | zero =>
      simp only [execRule, State.faultAt_later]
      rfl
  | succ depth ih => exact exec_later (fun rule c s => ih rule c s) limit rule.clause c s

end Clause

def Parsed.later (n : Nat) (p : Parsed) : Parsed := ⟨p.tree, p.tokens.map (Lexeme.later n)⟩

/-- A module is read alike wherever it stands. -/
theorem parseFrom_later (n origin : Nat) (text : List Char) :
    parseFrom (origin + n) text = (match parseFrom origin text with
      | .ok p => .ok (p.later n)
      | .error fault => .error (fault.later n)) := by
  have hread := Clause.exec_later (fun rule c s => Clause.execRule_later n (readingLimit text) (readingLimit text) rule c s)
    (readingLimit text) Clause.module {} { place := ⟨text, origin⟩ }
  have hstart : State.later n { place := ⟨text, origin⟩ } = { place := ⟨text, origin + n⟩ } := rfl
  rw [hstart] at hread
  unfold parseFrom
  dsimp only
  rw [hread]
  cases Clause.module.exec (Clause.execRule (readingLimit text) (readingLimit text)) (readingLimit text) {}
    { place := ⟨text, origin⟩ } with
  | failed fault s => rfl
  | read tree s =>
      have hlast : (s.later n).faults.getLast? = s.faults.getLast?.map (Fault.later n) := List.getLast?_map
      simp only [Outcome.later, hlast]
      cases s.faults.getLast? with
      | some fault => rfl
      | none => simp [Parsed.later]

end WebModules.Script
