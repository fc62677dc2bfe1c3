import WebModules.Script.Quoted
import WebModules.Script.Token

/-!
A lexeme is a token at a place of a text, with the characters it is written with and, for quoted
texts, what these stand for.  A cursor is a place in a text together with what follows it.
-/

namespace WebModules.Script

structure Cursor where
  rest : List Char
  /-- The number of bytes before `rest`. -/
  pos : Nat
  deriving Repr, Inhabited

namespace Cursor

def start (text : List Char) (pos : Nat) : Cursor := ⟨text, pos⟩

def next (c : Cursor) : Cursor :=
  match c.rest with
  | [] => c
  | ch :: r => ⟨r, c.pos + ch.utf8Size⟩

def skip : Nat → Cursor → Cursor
  | 0, c => c
  | n + 1, c => skip n c.next

def past (c : Cursor) (cs : List Char) : Cursor := ⟨c.rest.drop cs.length, c.pos + utf8Length cs⟩

def skipWhile (p : Char → Bool) (c : Cursor) : Cursor := c.past (c.rest.takeWhile p)

def head? (c : Cursor) : Option Char := c.rest.head?

def at? (c : Cursor) (s : String) : Bool := s.toList.isPrefixOf c.rest

/-- The characters from `c` up to `d`, a later place of the same text. -/
def upTo (c d : Cursor) : List Char := c.rest.take (c.rest.length - d.rest.length)

end Cursor

structure Lexeme where
  token : Token
  /-- The bytes from `start` up to `stop` are the token's. -/
  start : Nat
  stop : Nat
  /-- Whether a line of the text ends between the previous token and this one. -/
  afterLineBreak : Bool
  /-- The token as it is written. -/
  raw : List Char
  /-- What a quoted text stands for. -/
  value : List Char := []
  /-- Why the token is malformed, or why template text stands for nothing. -/
  fault? : Option Fault := none
  deriving Repr, Inhabited

namespace Lexeme

/-- Whether a string is written exactly as one of the two forms of the strict mode directive. -/
def isUseStrict (l : Lexeme) : Bool :=
  l.raw = "\"use strict\"".toList ∨ l.raw = "'use strict'".toList

end Lexeme

end WebModules.Script
