import WebModules.Script.Complaint
import WebModules.Script.Token
import WebModules.Script.Tree

/-!
The language in which the grammar is written.  A `Clause α` reads part of a script and yields an
`α`.  It is a value, not a function of the text: what a clause can learn about the text is listed
by the constructors of `Clause`, and that is the next two tokens, the line breaks before them and
how many tokens have been read.  No clause sees a byte position or what a string stands for, so
these cannot influence how a text is read.  What a clause does to a text is defined once, by
`Clause.run` in the module `Reader`.

Clauses refer to the named rules of the grammar by `Clause.rule`; the body of each rule is given
by `Rule.clause` in the module `Grammar`.
-/

namespace WebModules.Script

/-- What the surroundings allow at some point of a script. -/
structure Context where
  /-- Complaints are not noted while an alternative is being tried. -/
  silent : Bool := false
  /-- `in` is an operator here, and not the keyword of a loop. -/
  inOperator : Bool := true
  async : Bool := false
  generator : Bool := false
  inType : Bool := false
  /-- Within a declaration without implementation. -/
  ambient : Bool := false
  /-- Within a branch of a conditional expression. -/
  conditional : Bool := false
  /-- A colon may be the one of a conditional expression. -/
  colonExpected : Bool := false
  inFunction : Bool := false
  /-- Within a function that is no arrow, at any depth of arrows. -/
  hasNewTarget : Bool := false
  inParameters : Bool := false
  inClass : Bool := false
  classField : Bool := false
  staticBlock : Bool := false
  hasBase : Bool := false
  breakAllowed : Bool := false
  continueAllowed : Bool := false
  loopHead : Bool := false
  awaitLoopHead : Bool := false
  /-- `extends` does not start a conditional type here. -/
  noConditionalType : Bool := false
  deriving Repr, Inhabited

/-- What has been read and may matter later. -/
structure Notes where
  /-- The token that may be the first of an arrow function. -/
  arrowStart : Option Nat := none
  labels : List String := []
  /-- The commas before a closing bracket or brace, by the token that opens it. -/
  trailingCommas : List (Nat × Nat) := []
  deriving Repr, Inhabited

/-- Where a complaint is about. -/
inductive Place
  /-- The next token; at the end of the text, the last one. -/
  | here
  /-- The start of the token with the given number. -/
  | token (number : Nat)
  /-- The end of the last token read. -/
  | afterLast
  deriving DecidableEq, Repr, Inhabited

/-- What the grammar may ask of a string token. -/
inductive StringTest
  | useStrict
  | isConstructor
  deriving DecidableEq, Repr, Inhabited

/-- How a token is to be read again where the grammar decides what it is. -/
inductive Rescan
  | plain | regex | templateText | templateEdge
  deriving DecidableEq, Repr, Inhabited

/-- What a member access or call applies to. -/
inductive Callee
  | expression (tree : Tree)
  | superKeyword
  | importKeyword
  deriving Inhabited

/-- The kinds of function that differ in how they are read. -/
structure FunctionKind where
  async : Bool := false
  generator : Bool := false
  deriving DecidableEq, Repr, Inhabited

/-- What the parameters of a function must satisfy. -/
inductive ParameterRule
  | any
  /-- None, but for `this`; the number is that of the token complained about. -/
  | getter (name : Nat)
  /-- One, but for `this`. -/
  | setter (name : Nat)
  deriving DecidableEq, Repr, Inhabited

/-- The named rules of the grammar, by what they yield. -/
inductive Rule : Type → Type
  | expression : Rule Tree
  | assignment : Rule Tree
  | binary : Rule Tree
  | binaryTail (left : Tree) (least : Nat) : Rule Tree
  | unary : Rule Tree
  | leftHandSide : Rule Tree
  | memberOrNew (isNew : Bool) : Rule Tree
  | subscripts (first : Nat) (callee : Callee) (noCall noIndex : Bool) : Rule Tree
  | arguments : Rule (List Tree)
  | object : Rule Tree
  | asPattern (target element : Bool) (tree : Tree) : Rule Tree
  | bindingTarget : Rule Tree
  | parameters : Rule (List Tree)
  | function (first : Nat) (kind : FunctionKind) (parameters : ParameterRule) : Rule Tree
  | namedFunction (async : Option Nat) (isExpression nameRequired : Bool) : Rule Tree
  | classTail (first : Nat) (nameRequired : Bool) : Rule Tree
  | body (kind : FunctionKind) (simple : Bool) : Rule Tree
  | arrowBody (async simple : Bool) : Rule Tree
  | block : Rule Tree
  | type : Rule Tree
  | plainType : Rule Tree
  | typeOperator : Rule Tree
  | importType : Rule Tree
  | typeArguments : Rule Tree
  | typeParameters : Rule Tree
  | result (mark : Sign) : Rule Tree
  | statement (declarations topLevel : Bool) : Rule Tree
  | moduleBlock : Rule Tree
  | namespaceTail (first : Nat) : Rule Tree

inductive Clause : Type → Type 1
  | pure {α : Type} (a : α) : Clause α
  | bind {α β : Type} (clause : Clause α) (next : α → Clause β) : Clause β
  /-- The next token. -/
  | current : Clause Token
  /-- The token after the next one. -/
  | ahead : Clause Token
  /-- Whether a line ends before the next token, or the text does. -/
  | lineBreak : Clause Bool
  /-- Whether a line ends between the next token and the one after it, or the text does. -/
  | lineBreakAhead : Clause Bool
  /-- Whether the next token starts where the last one ends. -/
  | adjacent : Clause Bool
  /-- How many tokens have been read. -/
  | mark : Clause Nat
  /-- Reads the next token. -/
  | take : Clause Unit
  /-- Reads the next token in another way. -/
  | rescan (how : Rescan) : Clause Unit
  /-- Whether the string token with the given number passes a test. -/
  | testString (number : Nat) (test : StringTest) : Clause Bool
  /-- The flags of the next token, a regular expression. -/
  | regexFlags : Clause (List Char)
  | context : Clause Context
  /-- Reads a clause in other surroundings. -/
  | within {α : Type} (change : Context → Context) (clause : Clause α) : Clause α
  | notes : Clause Notes
  | note (change : Notes → Notes) : Clause Unit
  /-- Complains and goes on. -/
  | report (place : Place) (complaint : Complaint) : Clause Unit
  /-- Complains and gives up. -/
  | fail {α : Type} (place : Place) (complaint : Complaint) : Clause α
  /-- Gives up because the next token is malformed.  `pass` tells that it counts as read. -/
  | failMalformed {α : Type} (pass : Bool) : Clause α
  /-- Gives up because the token with the given number, read before, stands for nothing. -/
  | failUncooked {α : Type} (number : Nat) : Clause α
  /-- Where `clause` gives up, reads `rescue` instead from that point on.  If that yields a value,
  the complaint is noted; otherwise it stands. -/
  | rescued {α : Type} (clause : Clause α) (rescue : Clause (Option α)) : Clause α
  /-- Tries a clause without noting complaints.  Where it gives up or yields nothing, nothing has
  been read. -/
  | attempt {α : Type} (clause : Clause (Option α)) : Clause (Option α)
  /-- What a clause would yield, without reading anything. -/
  | foresee {α : Type} (clause : Clause α) : Clause α
  | rule {α : Type} (rule : Rule α) : Clause α
  /-- Repeats a step until it yields a result. -/
  | repeating {α σ : Type} (step : σ → Clause (σ ⊕ α)) (start : σ) : Clause α

namespace Clause

variable {α : Type}

instance : Monad Clause where
  pure := Clause.pure
  bind := Clause.bind

def isSign (s : Sign) : Clause Bool := do return (← current) == .sign s

def isWord (w : String) : Clause Bool := do return (← current) == .word w

def isOneOf (ss : List Sign) : Clause Bool := do
  match ← current with
  | .sign s => return ss.contains s
  | _ => return false

def isAnyWord : Clause Bool := do return (← current).isWord

/-- Whether the next token is a word that may name a variable. -/
def isName : Clause Bool := do return (← current).isName isReserved

def isString : Clause Bool := do return (← current) == .string

def isAheadSign (s : Sign) : Clause Bool := do return (← ahead) == .sign s

def isAheadWord (w : String) : Clause Bool := do return (← ahead) == .word w

def isAheadAnyWord : Clause Bool := do return (← ahead).isWord

def isAheadName : Clause Bool := do return (← ahead).isName isReserved

def isFinish : Clause Bool := do return (← current) == .finish

/-- Reads the given sign if it is next. -/
def eat (s : Sign) : Clause Bool := do
  if ← isSign s then
    take
    return true
  else return false

def eatWord (w : String) : Clause Bool := do
  if ← isWord w then
    take
    return true
  else return false

def expect (s : Sign) : Clause Unit := do
  unless ← eat s do fail .here (.expected s.text)

def expectWord (w : String) : Clause Unit := do
  unless ← eatWord w do fail .here (.expected w)

/-- Gives up where the next token is another than the wanted ones. -/
def unexpected (wanted : String) : Clause α := fail .here (.unexpected wanted)

/-- The next token, which must be there and well formed. -/
def need : Clause Token := do
  match ← current with
  | .finish => fail .afterLast .endOfText
  | .malformed => failMalformed true
  | token => return token

def reportAll (complaint : Complaint) : List Nat → Clause Unit
  | [] => return
  | number :: others => do
    report (.token number) complaint
    reportAll complaint others

/-- What a clause yields or, if that is nothing, what another one does. -/
def otherwise (clause : Clause (Option α)) (other : Clause α) : Clause α := do
  match ← clause with
  | some a => return a
  | none => other

/-- Whether a statement may end here: at a semicolon, before a closing brace, at the end of a line
or of the text. -/
def isEnd : Clause Bool := do
  match ← current with
  | .sign .semicolon | .sign .closeBrace | .finish => return true
  | _ => lineBreak

/-- Ends a statement, reading the semicolon if there is one, if it may end here. -/
def eatEnd : Clause Bool := do
  if ← eat .semicolon then return true else isEnd

def expectEnd : Clause Unit := do
  unless ← eatEnd do fail .here (.expected ";")

/-- A node over the tokens from `first` to the last one read. -/
def node (shape : Shape) (first : Nat) (children : List Tree) : Clause Tree := do
  return .node shape first (← mark) children

/-- Reads a clause in which `in` is an operator, or is not. -/
def withIn (allowed : Bool) (clause : Clause α) : Clause α :=
  within (fun c => { c with inOperator := allowed }) clause

def inType (clause : Clause α) : Clause α :=
  within (fun c => { c with inType := true }) clause

/-- Reads a clause that starts with no notes, and forgets its own. -/
def isolated (clause : Clause α) : Clause α := do
  let outer ← notes
  note fun _ => {}
  let a ← clause
  note fun _ => outer
  return a

def expression : Clause Tree := rule .expression

def assignment : Clause Tree := rule .assignment

def type : Clause Tree := rule .type

/-- The values of a step, in order, until it yields none. -/
def collect (step : Clause (Option α)) : Clause (List α) :=
  repeating (fun found => do
    match ← step with
    | some a => return .inl (a :: found)
    | none => return .inr found.reverse) []

end Clause

end WebModules.Script
