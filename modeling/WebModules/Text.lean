/-!
Cutting texts into parts.
-/

namespace WebModules.Text

/-- The white space of Unicode. -/
def isWhiteSpace (c : Char) : Bool :=
  let n := c.toNat
  (0x9 ≤ n && n ≤ 0xd) || n == 0x20 || n == 0x85 || n == 0xa0 || n == 0x1680
    || (0x2000 ≤ n && n ≤ 0x200a) || n == 0x2028 || n == 0x2029 || n == 0x202f || n == 0x205f
    || n == 0x3000

def trimStart (p : Char → Bool) (cs : List Char) : List Char := cs.dropWhile p

def trimEnd (p : Char → Bool) (cs : List Char) : List Char := (cs.reverse.dropWhile p).reverse

def trim (p : Char → Bool) (cs : List Char) : List Char := trimEnd p (trimStart p cs)

/-- Splits a text at the first place where a character stands. -/
def splitFirst? (c : Char) : List Char → Option (List Char × List Char)
  | [] => none
  | d :: r =>
    if d = c then some ([], r) else (splitFirst? c r).map fun (before, after) => (d :: before, after)

def splitLast? (c : Char) : List Char → Option (List Char × List Char)
  | [] => none
  | d :: r =>
    match splitLast? c r with
    | some (before, after) => some (d :: before, after)
    | none => if d = c then some ([], r) else none

/-- The parts of a text between the places where a character stands. -/
def split (c : Char) : List Char → List (List Char)
  | [] => [[]]
  | d :: r =>
    if d = c then [] :: split c r
    else
      match split c r with
      | part :: parts => (d :: part) :: parts
      | [] => [[d]]

def occursIn (part : List Char) : List Char → Bool
  | [] => part.isEmpty
  | c :: r => part.isPrefixOf (c :: r) || occursIn part r

/-- The first line of a text, without the line break that ends it. -/
def firstLine (cs : List Char) : List Char :=
  match splitFirst? '\n' cs with
  | some (line, _) => if line.getLast? = some '\r' then line.dropLast else line
  | none => cs

end WebModules.Text
