import WebModules.Script.Span
import WebModules.Script.Reader

/-!
Reading a whole module.  `parse` reads a text as a module and yields its syntax tree and the tokens
that the tree refers to, or the complaint that stands: the one that reading ended with, or else the
first that was noted on the way.
-/

namespace WebModules.Script

/-- A module that has been read.  The nodes of the tree refer to the tokens by their numbers. -/
structure Parsed where
  tree : Tree
  tokens : Array Lexeme
  deriving Inhabited

/-- A text that is no module, with the line and column of the first thing wrong with it. -/
structure SyntaxError where
  line : Nat
  column : Nat
  message : String
  deriving DecidableEq, Repr, Inhabited

def SyntaxError.text (e : SyntaxError) : String :=
  "syntax error at " ++ toString e.line ++ ":" ++ toString e.column ++ ": " ++ e.message

/-- A bound on the rules that can be open at a time, and on the repetitions of a step: without
reading a token, no chain of rules is as long as this bound allows for each character. -/
def readingLimit (text : List Char) : Nat := 64 * (text.length + 2)

/-- Reads a module whose text has `origin` bytes before it. -/
def parseFrom (origin : Nat) (text : List Char) : Except Fault Parsed :=
  let limit := readingLimit text
  let start : State := { place := ⟨text, origin⟩ }
  match Clause.exec (Clause.execRule limit limit) limit Clause.module {} start with
  | .failed fault _ => .error fault
  | .read tree s =>
    match s.faults.getLast? with
    | some fault => .error fault
    | none => .ok ⟨tree, s.taken.reverse.toArray⟩

/-- A text without the mark of the order of bytes at its start, and the length of that mark.  A
second mark is left out as well, but its length does not count. -/
def withoutByteOrderMark (text : List Char) : Nat × List Char :=
  match text with
  | '\ufeff' :: '\ufeff' :: r => (3, r)
  | '\ufeff' :: r => (3, r)
  | text => (0, text)

def parse (text : String) : Except SyntaxError Parsed :=
  let (origin, body) := withoutByteOrderMark text.toList
  match parseFrom origin body with
  | .ok parsed => .ok parsed
  | .error fault =>
    let position := Position.ofByte body (fault.pos - origin)
    .error ⟨position.line, position.column, fault.message⟩

end WebModules.Script
