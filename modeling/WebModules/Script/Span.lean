/-!
Places in a text.  A range of bytes is given by where it starts and stops.  Lines and columns are both
counted from one: a line ends after a line feed, after a carriage return, or after the two together; a
column is a number of UTF-16 units, of which a character beyond the basic plane takes two.
-/

namespace WebModules.Script

/-- The bytes from `start` up to but not including `stop`. -/
structure Span where
  start : Nat
  stop : Nat
  deriving DecidableEq, Repr, Inhabited

namespace Span

def length (s : Span) : Nat := s.stop - s.start

def isEmpty (s : Span) : Bool := s.start == s.stop

/-- Whether `inner` lies within `outer`. -/
def contains (outer inner : Span) : Bool :=
  decide (outer.start ≤ inner.start) && decide (inner.stop ≤ outer.stop)

end Span

/-- A string of a text: what it stands for, and the bytes it takes, its quotes included. -/
structure Literal where
  value : String
  span : Span
  deriving DecidableEq, Repr, Inhabited

structure Position where
  line : Nat
  column : Nat
  deriving DecidableEq, Repr, Inhabited

namespace Position

/-- The number of UTF-16 units that a character takes. -/
def units (c : Char) : Nat := if c.toNat < 0x10000 then 1 else 2

/-- The position after some characters, given the one before them.  `bytes` says how many bytes
these characters take. -/
def advance (p : Position) : Nat → List Char → Position
  | 0, _ => p
  | _ + 1, [] => p
  | bytes + 1, '\r' :: '\n' :: r =>
    if bytes = 0 then advance ⟨p.line, p.column + 1⟩ 0 ('\n' :: r)
    else advance ⟨p.line + 1, 1⟩ (bytes - 1) r
  | bytes + 1, c :: r =>
    if c = '\n' ∨ c = '\r' then advance ⟨p.line + 1, 1⟩ bytes r
    else advance ⟨p.line, p.column + units c⟩ (bytes + 1 - c.utf8Size) r

/-- The position of the byte numbered `pos`, which starts a character or ends the text. -/
def ofByte (text : List Char) (pos : Nat) : Position := advance ⟨1, 1⟩ pos text

end Position

end WebModules.Script
