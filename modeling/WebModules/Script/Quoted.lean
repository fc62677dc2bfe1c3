import WebModules.Script.Complaint

/-!
Text between quotes.  `interior` finds where a quoted text ends; `pieces` reads it from left to
right as a list of pieces, each a character or an escape, with the number of characters it takes;
`decode` is the text the pieces stand for.
-/

namespace WebModules.Script

def utf8Length (cs : List Char) : Nat := cs.foldr (fun c length => c.utf8Size + length) 0

def hexDigit? (c : Char) : Option Nat :=
  if '0' ≤ c ∧ c ≤ '9' then some (c.toNat - '0'.toNat)
  else if 'a' ≤ c ∧ c ≤ 'f' then some (c.toNat - 'a'.toNat + 10)
  else if 'A' ≤ c ∧ c ≤ 'F' then some (c.toNat - 'A'.toNat + 10)
  else none

def isHexDigit (c : Char) : Bool := (hexDigit? c).isSome

def isOctalDigit (c : Char) : Bool := '0' ≤ c && c ≤ '7'

/-- The number written by `digits` in base `radix`; characters that are no digit count nothing. -/
def numeral (radix : Nat) (digits : List Char) : Nat :=
  digits.foldl (fun n c => match hexDigit? c with
    | some d => n * radix + d
    | none => n) 0

/-- The character numbered `n`, if there is one: surrogates and numbers beyond the last code point
have none. -/
def scalar? (n : Nat) : Option Char :=
  if h : n.isValidChar then some (Char.ofNatAux n h) else none

namespace Quoted

/-- What one character or escape stands for. -/
inductive Piece
  | text (cs : List Char)
  /-- An octal escape, which modules do not allow. -/
  | octal (c : Char)
  | bad (complaint : Complaint)
  deriving DecidableEq, Repr, Inhabited

def Piece.chars : Piece → List Char
  | text cs => cs
  | octal c => [c]
  | bad _ => []

/-- The piece that a backslash starts, given what follows it, and how many of the characters after
the backslash belong to it. -/
def escape : List Char → Piece × Nat
  | [] => (.bad .invalidStringEscape, 0)
  | '\r' :: '\n' :: _ => (.text [], 2)
  | 'x' :: r =>
    let digits := (r.take 2).takeWhile isHexDigit
    if digits.length = 2 then (.text [Char.ofNat (numeral 16 digits)], 3)
    else (.bad (.badEscape "2 hex characters"), 1 + digits.length)
  | 'u' :: '{' :: r =>
    let digits := r.takeWhile isHexDigit
    let value := numeral 16 digits
    if digits.isEmpty ∨ Nat.pow 2 32 ≤ value then (.bad (.badEscape "1-6 hex characters"), 2)
    else if 0x10ffff < value then
      (.bad (.badEscape "1-6 hex characters in the range 0 to 10FFFF."), 2)
    else if (r.drop digits.length).head? ≠ some '}' then (.bad .invalidUnicodeEscape, 2)
    else match scalar? value with
      | some c => (.text [c], 3 + digits.length)
      | none => (.text ('\\' :: 'u' :: '{' :: digits ++ ['}']), 3 + digits.length)
  | 'u' :: r =>
    let digits := (r.take 4).takeWhile isHexDigit
    if digits.length = 4 then
      match scalar? (numeral 16 digits) with
      | some c => (.text [c], 5)
      | none => (.text ('\\' :: 'u' :: digits), 5)
    else (.bad (.badEscape "4 hex characters"), 1)
  | c :: r =>
    if c = '\n' ∨ c = '\r' ∨ c = '\u2028' ∨ c = '\u2029' then (.text [], 1)
    else if c = 'n' then (.text ['\n'], 1)
    else if c = 'r' then (.text ['\r'], 1)
    else if c = 't' then (.text ['\t'], 1)
    else if c = 'b' then (.text ['\x08'], 1)
    else if c = 'v' then (.text ['\x0b'], 1)
    else if c = 'f' then (.text ['\x0c'], 1)
    else if c = '0' ∧ (r.head?.map isOctalDigit).getD false = false then (.text ['\x00'], 1)
    else if isOctalDigit c then
      let digits := c :: (r.take 2).takeWhile isOctalDigit
      (.octal (Char.ofNat (numeral 8 digits % 256)), digits.length)
    else (.text [c], 1)

/-- The pieces of the characters left after `skip` of them, each with the number of bytes before
it; `pos` bytes precede the whole. -/
def piecesFrom : Nat → Nat → List Char → List (Piece × Nat)
  | _, _, [] => []
  | pos, skip + 1, c :: r => piecesFrom (pos + c.utf8Size) skip r
  | pos, 0, c :: r =>
    if c = '\\' then
      let (piece, taken) := escape r
      (piece, pos) :: piecesFrom (pos + 1) taken r
    else (.text [c], pos) :: piecesFrom (pos + c.utf8Size) 0 r

/-- The pieces of a quoted text, each with the number of bytes before it. -/
def pieces (cs : List Char) : List (Piece × Nat) := piecesFrom 0 0 cs

/-- The text that the characters between two quotes stand for. -/
def decode (cs : List Char) : List Char := (pieces cs).flatMap (fun p => p.1.chars)

/-- The first escape that stands for nothing, and where it is. -/
def firstBad? (cs : List Char) : Option (Complaint × Nat) :=
  (pieces cs).findSome? fun
    | (.bad complaint, pos) => some (complaint, pos)
    | _ => none

/-- Where the octal escapes before the first bad escape are. -/
def octals (cs : List Char) : List Nat :=
  ((pieces cs).takeWhile fun
    | (.bad _, _) => false
    | _ => true).filterMap fun
    | (.octal _, pos) => some pos
    | _ => none

/-- The first octal or bad escape: template text allows neither. -/
def firstUncooked? (cs : List Char) : Option (Complaint × Nat) :=
  (pieces cs).findSome? fun
    | (.bad complaint, pos) => some (complaint, pos)
    | (.octal _, pos) => some (.legacyOctalEscape, pos)
    | _ => none

/-- Splits the text after an opening quote into what lies between the quotes and what follows,
which starts with the closing quote, with a line break that ends the literal early, or is empty. -/
def interior (quote : Char) : List Char → List Char × List Char
  | [] => ([], [])
  | '\\' :: '\r' :: '\n' :: r =>
    let (inside, rest) := interior quote r
    ('\\' :: '\r' :: '\n' :: inside, rest)
  | '\\' :: c :: r =>
    let (inside, rest) := interior quote r
    ('\\' :: c :: inside, rest)
  | c :: r =>
    if c = quote ∨ c = '\n' ∨ c = '\r' then ([], c :: r)
    else
      let (inside, rest) := interior quote r
      (c :: inside, rest)

/-- Splits template text into a stretch without substitutions and what follows, which starts with
a backtick or with the mark that opens a substitution, or is empty. -/
def stretch : List Char → List Char × List Char
  | [] => ([], [])
  | '`' :: r => ([], '`' :: r)
  | '$' :: '{' :: r => ([], '$' :: '{' :: r)
  | '\\' :: c :: r =>
    let (inside, rest) := stretch r
    ('\\' :: c :: inside, rest)
  | c :: r =>
    let (inside, rest) := stretch r
    (c :: inside, rest)

/-- Splits the text after the slash that opens a regular expression into its body and what follows,
which starts with the closing slash or a line break, or is empty. -/
def regexBody (escaped inClass : Bool) : List Char → List Char × List Char
  | [] => ([], [])
  | c :: r =>
    if isLineBreak c then ([], c :: r)
    else if escaped then
      let (inside, rest) := regexBody false inClass r
      (c :: inside, rest)
    else if c = '/' ∧ !inClass then ([], c :: r)
    else
      let inClass := if c = '[' then true else if c = ']' then false else inClass
      let (inside, rest) := regexBody (c == '\\') inClass r
      (c :: inside, rest)

end Quoted

end WebModules.Script
