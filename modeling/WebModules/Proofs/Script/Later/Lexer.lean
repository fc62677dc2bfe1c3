import WebModules.Proofs.Script.Walk

/-!
Reading a text that has more bytes before it: the tokens are the same, and so are the complaints, but
that all places are later.
-/

namespace WebModules.Script

def Fault.later (n : Nat) (f : Fault) : Fault := { f with pos := f.pos + n }

def Lexeme.later (n : Nat) (l : Lexeme) : Lexeme :=
  { l with start := l.start + n, stop := l.stop + n, fault? := l.fault?.map (Fault.later n) }

namespace Cursor

variable (n : Nat) (c d : Cursor)

@[simp] theorem later_rest : (c.later n).rest = c.rest := rfl

@[simp] theorem later_pos : (c.later n).pos = c.pos + n := rfl

@[simp] theorem next_later : (c.later n).next = c.next.later n := by
  obtain ⟨rest, pos⟩ := c
  cases rest with
  | nil => rfl
  | cons ch r => simp only [next, later, Nat.add_right_comm]

@[simp] theorem skip_later (k : Nat) : (c.later n).skip k = (c.skip k).later n := by
  induction k generalizing c with
  | zero => rfl
  | succ k ih => rw [skip, skip, next_later, ih]

@[simp] theorem past_later (cs : List Char) : (c.later n).past cs = (c.past cs).later n := by
  simp only [past, later, Nat.add_right_comm]

@[simp] theorem skipWhile_later (p : Char → Bool) : (c.later n).skipWhile p = (c.skipWhile p).later n :=
  past_later n c _

@[simp] theorem head?_later : (c.later n).head? = c.head? := rfl

@[simp] theorem at?_later (s : String) : (c.later n).at? s = c.at? s := rfl

@[simp] theorem upTo_later (k : Nat) : (c.later n).upTo (d.later k) = c.upTo d := rfl

end Cursor

namespace Lexer

variable (n : Nat)

def Passed.later (p : Passed) : Passed := ⟨p.cursor.later n, p.lineBreak, p.unterminated.map (· + n)⟩

def Reading.later : Reading → Reading
  | .token kind after value fault? faults =>
    .token kind (after.later n) value (fault?.map (Fault.later n)) (faults.map (Fault.later n))
  | .passed after fault => .passed (after.later n) (fault.later n)

def Word.later (w : Word) : Word := { w with after := w.after.later n }

def Digits.later (d : Digits) : Digits := ⟨d.digits, d.after.later n, d.faults.map (Fault.later n)⟩

def Scanned.later (s : Scanned) : Scanned := ⟨s.lexeme.later n, s.after.later n, s.faults.map (Fault.later n)⟩

/-- Where a block comment began matters only within it. -/
theorem passGap_opened {gap : Gap} (hgap : gap ≠ .block) (opened opened' : Nat) (lineBreak : Bool) (cs : List Char)
    (pos : Nat) : passGap gap opened lineBreak cs pos = passGap gap opened' lineBreak cs pos := by
  induction gap, opened, lineBreak, cs, pos using passGap.induct <;> simp_all [passGap]

theorem passGap_later (gap : Gap) (opened : Nat) (lineBreak : Bool) (cs : List Char) (pos : Nat) :
    passGap gap (opened + n) lineBreak cs (pos + n) = (passGap gap opened lineBreak cs pos).later n := by
  induction gap, opened, lineBreak, cs, pos using passGap.induct <;>
    simp_all [passGap, Nat.add_right_comm, Passed.later, Cursor.later]

theorem wordFrom_later (first : Bool) (skip : Nat) (cs : List Char) (pos : Nat) :
    wordFrom first skip cs (pos + n) = (wordFrom first skip cs pos).later n := by
  induction cs generalizing first skip pos with
  | nil => cases skip <;> rfl
  | cons c r ih =>
      cases skip with
      | succ skip => simpa only [wordFrom, Nat.add_right_comm] using ih first skip (pos + c.utf8Size)
      | zero =>
          simp only [wordFrom]
          split
          · split
            · simp only [Word.later, Cursor.later, Nat.add_right_comm]
            · split
              · rw [Nat.add_right_comm, ih]
                rfl
              · simp only [Word.later, Cursor.later, Nat.add_right_comm]
              · simp only [Word.later, Cursor.later, Nat.add_right_comm]
          · split
            · rw [Nat.add_right_comm, ih]
              rfl
            · rfl

@[simp] theorem malformed_later (after : Cursor) (complaint : Complaint) (pos : Nat) (faults : List Fault) :
    malformed (after.later n) complaint (pos + n) (faults.map (Fault.later n)) =
      (malformed after complaint pos faults).later n := rfl

theorem readWord_later (c : Cursor) : readWord (c.later n) = (readWord c).later n := by
  unfold readWord
  simp only [Cursor.later_rest, Cursor.later_pos, wordFrom_later]
  obtain ⟨name, after, escaped, complaint?, faults⟩ := wordFrom true 0 c.rest c.pos
  have hfaults : faults.map (fun complaint => (⟨complaint, c.pos + n, ""⟩ : Fault)) =
      (faults.map fun complaint => (⟨complaint, c.pos, ""⟩ : Fault)).map (Fault.later n) := by
    simp [Fault.later]
  dsimp only [Word.later]
  rw [hfaults]
  cases complaint? with
  | some complaint => rfl
  | none =>
      dsimp only
      rw [apply_ite (Reading.later n)]
      rfl

@[simp] theorem readDigits_later (radix : Nat) (c : Cursor) : readDigits radix (c.later n) = (readDigits radix c).later n := by
  simp only [readDigits, Digits.later, Cursor.later_rest, Cursor.past_later, Cursor.later_pos,
    apply_ite (List.map (Fault.later n))]
  rfl

@[simp] theorem endNumber_later (after : Cursor) (faults : List Fault) :
    endNumber (after.later n) (faults.map (Fault.later n)) = (endNumber after faults).later n := by
  unfold endNumber
  rw [Cursor.head?_later]
  split <;> rfl

theorem readExponent_later (c : Cursor) (faults : List Fault) :
    readExponent (c.later n) (faults.map (Fault.later n)) = (readExponent c faults).later n := by
  unfold readExponent
  simp only [Cursor.head?_later, Cursor.next_later]
  split
  · split
    · rfl
    · rename_i sign _
      have hdigits : (if sign = '+' ∨ sign = '-' then (c.next.later n).next else c.next.later n) =
          (if sign = '+' ∨ sign = '-' then c.next.next else c.next).later n := by
        split <;> simp
      simp only [Cursor.next_later] at hdigits
      rw [hdigits, readDigits_later]
      generalize (if sign = '+' ∨ sign = '-' then c.next.next else c.next) = atDigits
      simp only [Digits.later, ← List.map_append]
      split
      · rfl
      · exact endNumber_later n _ _
  · exact endNumber_later n c faults

theorem readFraction_later (c : Cursor) (faults : List Fault) :
    readFraction (c.later n) (faults.map (Fault.later n)) = (readFraction c faults).later n := by
  unfold readFraction
  simp only [Cursor.head?_later, Cursor.next_later, readDigits_later, Digits.later, ← List.map_append]
  split
  · exact readExponent_later n _ _
  · exact readExponent_later n c faults

theorem readDecimal_later (c : Cursor) : readDecimal (c.later n) = (readDecimal c).later n := by
  have hfirst := readFraction_later n c []
  unfold readDecimal
  simp only [Cursor.head?_later, Cursor.next_later, readDigits_later]
  obtain ⟨digits, after, faults⟩ := readDigits 10 c
  have hlegacy (complaint : Complaint) : faults.map (Fault.later n) ++ [(⟨complaint, c.pos + n, ""⟩ : Fault)] =
      (faults ++ [(⟨complaint, c.pos, ""⟩ : Fault)]).map (Fault.later n) := by
    simp [Fault.later]
  dsimp only [Digits.later]
  simp only [hlegacy, Cursor.head?_later, Cursor.next_later, Cursor.later_pos, ne_eq, Nat.add_right_cancel_iff]
  split
  · exact hfirst
  · split
    · rfl
    · split
      · split
        · exact readFraction_later n _ _
        · split <;> rfl
      · exact readFraction_later n _ _

theorem readRadix_later (radix : Nat) (c : Cursor) : readRadix radix (c.later n) = (readRadix radix c).later n := by
  unfold readRadix
  simp only [Cursor.next_later, readDigits_later]
  obtain ⟨digits, after, faults⟩ := readDigits radix c.next.next
  dsimp only [Digits.later]
  simp only [Cursor.head?_later, Cursor.next_later, endNumber_later]
  split
  · rfl
  · split <;> rfl

theorem readNumber_later (c : Cursor) : readNumber (c.later n) = (readNumber c).later n := by
  unfold readNumber
  simp only [Cursor.later_rest, readRadix_later, readDecimal_later]
  split
  · split
    · rfl
    · split
      · rfl
      · split <;> rfl
  · rfl

theorem readString_later (quote : Char) (c : Cursor) : readString quote (c.later n) = (readString quote c).later n := by
  unfold readString
  simp only [Cursor.next_later, Cursor.later_rest, Cursor.later_pos]
  obtain ⟨inside, rest⟩ := Quoted.interior quote c.next.rest
  have hafter : (⟨rest, c.pos + n + 1 + utf8Length inside⟩ : Cursor) = Cursor.later n ⟨rest, c.pos + 1 + utf8Length inside⟩ := by
    simp only [Cursor.later, Nat.add_right_comm]
  have hoctals : (Quoted.octals inside).map (fun pos => (⟨.legacyOctalEscape, c.pos + n + 1 + pos, ""⟩ : Fault)) =
      ((Quoted.octals inside).map fun pos => (⟨.legacyOctalEscape, c.pos + 1 + pos, ""⟩ : Fault)).map (Fault.later n) := by
    simp [Fault.later, Nat.add_right_comm]
  dsimp only
  rw [hafter, hoctals]
  split
  · rename_i complaint pos _
    rw [show c.pos + n + 1 + pos = c.pos + 1 + pos + n by omega]
    rfl
  · split
    · rw [Cursor.next_later]
      rfl
    · simp [Reading.later, Fault.later]

theorem readRegex_later (c : Cursor) : readRegex (c.later n) = (readRegex c).later n := by
  unfold readRegex
  simp only [Cursor.next_later, Cursor.later_rest, Cursor.later_pos]
  obtain ⟨inside, rest⟩ := Quoted.regexBody false false c.next.rest
  have hafter : (⟨rest, c.pos + n + 1 + utf8Length inside⟩ : Cursor) = Cursor.later n ⟨rest, c.pos + 1 + utf8Length inside⟩ := by
    simp only [Cursor.later, Nat.add_right_comm]
  dsimp only
  rw [hafter]
  split
  · simp only [Cursor.next_later, Cursor.later_rest, Cursor.past_later]
    rfl
  · rfl

theorem readTemplateText_later (c : Cursor) : readTemplateText (c.later n) = (readTemplateText c).later n := by
  unfold readTemplateText
  simp only [Cursor.later_rest, Cursor.later_pos]
  have hafter : (⟨(Quoted.stretch c.rest).2, c.pos + n + utf8Length (Quoted.stretch c.rest).1⟩ : Cursor) =
      Cursor.later n ⟨(Quoted.stretch c.rest).2, c.pos + utf8Length (Quoted.stretch c.rest).1⟩ := by
    simp only [Cursor.later, Nat.add_right_comm]
  rw [hafter, apply_ite (Reading.later n)]
  cases Quoted.firstUncooked? (Quoted.stretch c.rest).1 with
  | none => rfl
  | some found =>
      dsimp only
      rw [Nat.add_right_comm]
      rfl

theorem readSign_later (mode : Mode) (afterLineBreak : Bool) (c : Cursor) :
    readSign mode afterLineBreak (c.later n) = (readSign mode afterLineBreak c).later n := by
  unfold readSign skipLine
  simp only [Cursor.at?_later, Cursor.next_later, Cursor.skipWhile_later, Cursor.later_rest, Cursor.later_pos,
    Cursor.skip_later, apply_ite (Reading.later n)]
  cases signs.find? fun s => c.at? s.1 with
  | some found => rfl
  | none =>
      cases c.rest with
      | nil => rfl
      | cons ch r => rfl

theorem readToken_later (mode : Mode) (afterLineBreak : Bool) (c : Cursor) :
    readToken mode afterLineBreak (c.later n) = (readToken mode afterLineBreak c).later n := by
  unfold readToken
  simp only [Cursor.later_rest, readRegex_later, readWord_later, readNumber_later, readString_later, readSign_later]
  split
  · rfl
  · simp only [apply_ite (Reading.later n)]

theorem readEdge_later (c : Cursor) : readEdge (c.later n) = (readEdge c).later n := by
  unfold readEdge
  simp only [Cursor.later_rest, Cursor.next_later, Cursor.later_pos]
  split <;> rfl

theorem scanned_later (c : Cursor) (afterLineBreak : Bool) (noted : List Fault) (token : Token) (after : Cursor)
    (value : List Char) (fault? : Option Fault) (faults : List Fault) :
    scanned (c.later n) afterLineBreak (noted.map (Fault.later n)) token (after.later n) value
        (fault?.map (Fault.later n)) (faults.map (Fault.later n)) =
      (scanned c afterLineBreak noted token after value fault? faults).later n := by
  simp [scanned, Scanned.later, Lexeme.later]

/-- What is noted after a gap. -/
def Passed.noting (gap : Passed) (noted : List Fault) : List Fault :=
  match gap.unterminated with
  | some pos => noted ++ [⟨.unterminatedComment, pos, ""⟩]
  | none => noted

theorem noting_later (gap : Passed) (noted : List Fault) :
    (gap.later n).noting (noted.map (Fault.later n)) = (gap.noting noted).map (Fault.later n) := by
  unfold Passed.noting Passed.later
  cases gap.unterminated with
  | none => rfl
  | some pos => simp [Fault.later]

/-- The lexeme that was read after `c`, or what is scanned after something that was passed over. -/
def Reading.conclude (reading : Reading) (c : Cursor) (lineBreak : Bool) (noted : List Fault)
    (pass : List Fault → Cursor → Scanned) : Scanned :=
  match reading with
  | .token found after value fault? faults => scanned c lineBreak noted found after value fault? faults
  | .passed after fault => pass (noted ++ [fault]) after

theorem conclude_later {pass pass' : List Fault → Cursor → Scanned}
    (hpass : ∀ noted after, pass' (noted.map (Fault.later n)) (after.later n) = (pass noted after).later n)
    (reading : Reading) (c : Cursor) (lineBreak : Bool) (noted : List Fault) :
    (reading.later n).conclude (c.later n) lineBreak (noted.map (Fault.later n)) pass' =
      (reading.conclude c lineBreak noted pass).later n := by
  cases reading with
  | token kind after value fault? faults => exact scanned_later n _ _ _ _ _ _ _ _
  | passed after fault =>
      have hrest := hpass (noted ++ [fault]) after
      rw [List.map_append] at hrest
      exact hrest

theorem scanFrom_succ (mode : Mode) (fuel : Nat) (lineBreak : Bool) (noted : List Fault) (c : Cursor) {gap : Passed}
    (hgap : passGap .blank 0 lineBreak c.rest c.pos = gap) :
    scanFrom mode (fuel + 1) lineBreak noted c =
      (readToken mode gap.lineBreak gap.cursor).conclude gap.cursor gap.lineBreak (gap.noting noted)
        (scanFrom mode fuel gap.lineBreak) := by
  subst hgap
  rfl

theorem scanFrom_later (mode : Mode) (fuel : Nat) (lineBreak : Bool) (noted : List Fault) (c : Cursor) :
    scanFrom mode fuel lineBreak (noted.map (Fault.later n)) (c.later n) = (scanFrom mode fuel lineBreak noted c).later n := by
  induction fuel generalizing lineBreak noted c with
  | zero => exact scanned_later n c lineBreak noted .finish c [] none []
  | succ fuel ih =>
      obtain ⟨gap, hgap⟩ : ∃ gap, passGap .blank 0 lineBreak c.rest c.pos = gap := ⟨_, rfl⟩
      have hgap' : passGap .blank 0 lineBreak (c.later n).rest (c.later n).pos = gap.later n := by
        have hblank : Gap.blank ≠ .block := nofun
        have := passGap_later n .blank 0 lineBreak c.rest c.pos
        rwa [passGap_opened hblank _ 0, hgap] at this
      rw [scanFrom_succ mode fuel lineBreak _ _ hgap', scanFrom_succ mode fuel lineBreak _ _ hgap, noting_later]
      refine Eq.trans ?_ (conclude_later n (fun noted after => ih gap.lineBreak noted after) _ _ _ _)
      rw [← readToken_later]
      rfl

@[simp] theorem scan_later (mode : Mode) (first : Bool) (c : Cursor) :
    scan mode first (c.later n) = (scan mode first c).later n := by
  have htemplate (reading : Reading) :
      (reading.later n).conclude (c.later n) false [] (fun noted after =>
          scanned (c.later n) false noted .finish after [] none []) =
        (reading.conclude c false [] fun noted after => scanned c false noted .finish after [] none []).later n :=
    conclude_later n (fun noted after => scanned_later n c false noted .finish after [] none []) reading c false []
  have hshebang : (if first ∧ (c.later n).at? "#!" then
        scanned (c.later n) true [] .shebang (skipLine (c.later n)) [] none []
      else scanFrom mode ((c.later n).rest.length + 1) first [] (c.later n)) =
      (if first ∧ c.at? "#!" then scanned c true [] .shebang (skipLine c) [] none []
      else scanFrom mode (c.rest.length + 1) first [] c).later n := by
    rw [apply_ite (Scanned.later n), ← scanFrom_later, ← scanned_later, skipLine, skipLine, Cursor.skipWhile_later]
    rfl
  unfold scan
  cases mode with
  | templateText =>
      simp only [readTemplateText_later]
      exact htemplate (readTemplateText c)
  | templateEdge =>
      simp only [readEdge_later]
      exact htemplate (readEdge c)
  | _ => exact hshebang

end Lexer

end WebModules.Script
