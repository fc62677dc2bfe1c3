import WebModules.Script.Description
import WebModules.Script.Grammar
import WebModules.Script.Lexer

/-!
What a clause does to a text.  `Clause.run` reads a clause of the grammar: tokens are read one by
one, only when the clause asks for them, in the way that the surroundings call for at that moment.
A read ends with a value or with a fault, and in both cases with a state that tells what has been
read and what has been complained about.
-/

namespace WebModules.Script

/-- A token that has been looked at, with the place after it. -/
structure Looked where
  lexeme : Lexeme
  after : Cursor
  deriving Inhabited

/-- How far a text has been read. -/
structure State where
  /-- The place after the last token that was read. -/
  place : Cursor
  /-- The tokens read, the last one first, and their number. -/
  taken : List Lexeme := []
  count : Nat := 0
  /-- The next token and the one after it, if they have been looked at. -/
  current? : Option Looked := none
  ahead? : Option Looked := none
  /-- The complaints noted, the last one first. -/
  faults : List Fault := []
  notes : Notes := {}
  deriving Inhabited

/-- How reading a clause ends. -/
inductive Outcome (α : Type)
  | read (value : α) (state : State)
  | failed (fault : Fault) (state : State)

namespace State

/-- Notes complaints, unless they are to be passed over. -/
def complain (silent : Bool) (faults : List Fault) (s : State) : State :=
  if silent then s else { s with faults := faults.reverse ++ s.faults }

/-- The way in which tokens are read where a context holds. -/
def mode (c : Context) : Mode := if c.inType then .type else .plain

/-- The next token. -/
def look (c : Context) (s : State) : Lexeme × State :=
  match s.current? with
  | some looked => (looked.lexeme, s)
  | none =>
    let scanned := Lexer.scan (mode c) (s.count == 0) s.place
    (scanned.lexeme,
      { s.complain c.silent scanned.faults with current? := some ⟨scanned.lexeme, scanned.after⟩ })

/-- The token after the next one. -/
def lookAhead (c : Context) (s : State) : Lexeme × State :=
  let (_, s) := s.look c
  match s.ahead? with
  | some looked => (looked.lexeme, s)
  | none =>
    let from' := (s.current?.map Looked.after).getD s.place
    let scanned := Lexer.scan (mode c) false from'
    (scanned.lexeme,
      { s.complain c.silent scanned.faults with ahead? := some ⟨scanned.lexeme, scanned.after⟩ })

/-- Reads the next token.  At the end of the text there is none. -/
def take (c : Context) (s : State) : State :=
  let (_, s) := s.look c
  match s.current? with
  | none => s
  | some looked =>
    if looked.lexeme.token = .finish then s
    else
      { s with place := looked.after, taken := looked.lexeme :: s.taken, count := s.count + 1,
               current? := s.ahead?, ahead? := none }

/-- The way in which a token is read again. -/
def rescanMode (c : Context) : Rescan → Mode
  | .plain => mode c
  | .regex => .regex
  | .templateText => .templateText
  | .templateEdge => .templateEdge

/-- Looks at the next token in another way. -/
def rescan (c : Context) (how : Rescan) (s : State) : State :=
  let scanned := Lexer.scan (rescanMode c how) (s.count == 0) s.place
  { s.complain c.silent scanned.faults with
    current? := some ⟨scanned.lexeme, scanned.after⟩, ahead? := none }

def last? (s : State) : Option Lexeme := s.taken.head?

def lastStop (s : State) : Nat := (s.last?.map Lexeme.stop).getD s.place.pos

/-- The token with the given number among those read. -/
def token? (number : Nat) (s : State) : Option Lexeme :=
  if number < s.count then s.taken[s.count - 1 - number]? else none

/-- A complaint about a place, where `current` is the next token. -/
def fault (place : Place) (complaint : Complaint) (current : Lexeme) (s : State) : Fault :=
  let atEnd := current.token == .finish
  match place with
  | .here =>
    let pos := if atEnd then (s.last?.map Lexeme.start).getD current.start else current.start
    ⟨complaint, pos, current.description⟩
  | .token number =>
    match s.token? number with
    | some lexeme =>
      let got := match complaint with
        | .stringImport => String.ofList lexeme.value
        | _ => lexeme.description
      ⟨complaint, lexeme.start, got⟩
    | none => ⟨complaint, if atEnd then s.lastStop else current.start, current.description⟩
  | .afterLast => ⟨complaint, s.lastStop, current.description⟩

/-- A complaint about a place, for which the next token is looked at. -/
def faultAt (c : Context) (place : Place) (complaint : Complaint) (s : State) : Fault × State :=
  let (current, s) := s.look c
  (s.fault place complaint current, s)

/-- Where the next token is malformed, reads it and notes its own fault. -/
def passMalformed (c : Context) (s : State) : State :=
  match s.current? with
  | none => s
  | some looked =>
    if looked.lexeme.token = .malformed then
      (s.take c).complain c.silent looked.lexeme.fault?.toList
    else s

def report (c : Context) (place : Place) (complaint : Complaint) (s : State) : State :=
  if c.silent then s
  else
    let (fault, s) := s.faultAt c place complaint
    (s.passMalformed c).complain c.silent [fault]

/-- Takes steps until one yields a result, at most as many as the number says. -/
def repeated {α σ : Type} (c : Context) (step : σ → State → Outcome (σ ⊕ α)) :
    Nat → σ → State → Outcome α
  | 0, _, s =>
    let (fault, s) := s.faultAt c .here .tooDeep
    .failed fault s
  | n + 1, state, s =>
    match step state s with
    | .read (.inl state) s => repeated c step n state s
    | .read (.inr a) s => .read a s
    | .failed fault s => .failed fault s

end State

namespace Clause

/-- Reads a clause, where `call` reads a rule and `limit` bounds the repetitions of a step. -/
def exec (call : {α : Type} → Rule α → Context → State → Outcome α) (limit : Nat) :
    {α : Type} → Clause α → Context → State → Outcome α
  | _, .pure a, _, s => .read a s
  | _, .bind clause next, c, s =>
    match exec call limit clause c s with
    | .read a s => exec call limit (next a) c s
    | .failed fault s => .failed fault s
  | _, .current, c, s =>
    let (lexeme, s) := s.look c
    .read lexeme.token s
  | _, .ahead, c, s =>
    let (lexeme, s) := s.lookAhead c
    .read lexeme.token s
  | _, .lineBreak, c, s =>
    let (lexeme, s) := s.look c
    .read lexeme.afterLineBreak s
  | _, .lineBreakAhead, c, s =>
    let (lexeme, s) := s.lookAhead c
    .read lexeme.afterLineBreak s
  | _, .adjacent, c, s =>
    let (lexeme, s) := s.look c
    .read (lexeme.start == s.lastStop) s
  | _, .mark, _, s => .read s.count s
  | _, .take, c, s => .read () (s.take c)
  | _, .rescan how, c, s => .read () (s.rescan c how)
  | _, .testString number test, _, s =>
    let passes := match s.token? number, test with
      | some lexeme, .useStrict => lexeme.isUseStrict
      | some lexeme, .isConstructor => lexeme.value == "constructor".toList
      | none, _ => false
    .read passes s
  | _, .regexFlags, c, s =>
    let (lexeme, s) := s.look c
    .read lexeme.value s
  | _, .context, c, s => .read c s
  | _, .within change clause, c, s => exec call limit clause (change c) s
  | _, .notes, _, s => .read s.notes s
  | _, .note change, _, s => .read () { s with notes := change s.notes }
  | _, .report place complaint, c, s => .read () (s.report c place complaint)
  | _, .fail place complaint, c, s =>
    let (fault, s) := s.faultAt c place complaint
    .failed fault (s.passMalformed c)
  | _, .failMalformed pass, c, s =>
    let (lexeme, s) := s.look c
    let fault := lexeme.fault?.getD (s.fault .here .expressionExpected lexeme)
    .failed fault (if pass && lexeme.token == .malformed then s.take c else s)
  | _, .failUncooked number, c, s =>
    let (fault, s) := s.faultAt c .here .unterminatedTemplate
    .failed (((s.token? number).bind Lexeme.fault?).getD fault) s
  | _, .rescued clause rescue, c, s =>
    match exec call limit clause c s with
    | .read a s => .read a s
    | .failed fault s =>
      match exec call limit rescue c s with
      | .read (some a) s => .read a (s.complain c.silent [fault])
      | .read none s => .failed fault s
      | .failed fault s => .failed fault s
  | _, .attempt clause, c, s =>
    match exec call limit clause { c with silent := true } s with
    | .read (some a) s => .read (some a) s
    | .read none _ => .read none s
    | .failed _ _ => .read none s
  | _, .foresee clause, c, s =>
    match exec call limit clause { c with silent := true } s with
    | .read a _ => .read a s
    | .failed fault _ => .failed fault s
  | _, .rule named, c, s => call named c s
  | _, .repeating step start, c, s =>
    State.repeated c (fun state s => exec call limit (step state) c s) limit start s

/-- Reads a rule, with at most `depth` rules open at a time. -/
def execRule (limit : Nat) : Nat → {α : Type} → Rule α → Context → State → Outcome α
  | 0, _, _, c, s =>
    let (fault, s) := s.faultAt c .here .tooDeep
    .failed fault s
  | depth + 1, _, named, c, s => exec (execRule limit depth) limit named.clause c s

end Clause

end WebModules.Script
