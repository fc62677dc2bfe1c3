import WebModules.Script.NameTable

/-!
The characters of a script that matter before any token is formed: those of names, blanks and
line breaks, and the words that no name may be.
-/

namespace WebModules.Script

/-- Whether `n` lies in one of the ascending, disjoint `ranges`, by bisection between the indices
`lo` and `hi`; `fuel` bounds the number of halvings. -/
def inRangesBetween (ranges : Array (Nat × Nat)) (n : Nat) : Nat → Nat → Nat → Bool
  | 0, _, _ => false
  | fuel + 1, lo, hi =>
    if lo < hi then
      let mid := (lo + hi) / 2
      match ranges[mid]? with
      | none => false
      | some (first, last) =>
        if n < first then inRangesBetween ranges n fuel lo mid
        else if last < n then inRangesBetween ranges n fuel (mid + 1) hi
        else true
    else false

/-- Whether `n` lies in one of the ascending, disjoint `ranges`. -/
def inRanges (ranges : Array (Nat × Nat)) (n : Nat) : Bool :=
  inRangesBetween ranges n (ranges.size + 1) 0 ranges.size

def isNameStart (c : Char) : Bool :=
  if c.val < 128 then c.isAlpha || c == '_' || c == '$' else inRanges nameStartRanges c.toNat

/-- A character that may stand in a name after the first one.  The two joiners U+200C and U+200D
count as well. -/
def isNamePart (c : Char) : Bool :=
  if c.val < 128 then c.isAlphanum || c == '_' || c == '$'
  else inRanges nameStartRanges c.toNat || inRanges nameTailRanges c.toNat
    || c == '\u200c' || c == '\u200d'

/-- The four characters that end a line of a script. -/
def isLineBreak (c : Char) : Bool :=
  c == '\n' || c == '\r' || c == '\u2028' || c == '\u2029'

/-- Blanks within a line; a byte order mark counts as one. -/
def isBlank (c : Char) : Bool :=
  c == ' ' || c == '\t' || c == '\x0b' || c == '\x0c' || c == '\u00a0' || c == '\ufeff'
    || c == '\u1680' || ('\u2000' ≤ c && c ≤ '\u200a') || c == '\u202f' || c == '\u205f'
    || c == '\u3000'

/-- The words with a meaning of their own in the grammar, the three literal words included. -/
def keywords : List String :=
  ["await", "break", "case", "catch", "class", "const", "continue", "debugger", "default",
    "delete", "do", "else", "export", "extends", "false", "finally", "for", "function", "if",
    "import", "in", "instanceof", "let", "new", "null", "return", "super", "switch", "this",
    "throw", "true", "try", "typeof", "var", "void", "while", "with", "yield"]

def isKeyword (word : String) : Bool := keywords.contains word

/-- A word that can name no variable: the keywords and, since modules are always strict, the words
kept for later use. -/
def isReserved (word : String) : Bool :=
  isKeyword word || ["enum", "implements", "interface", "package", "private", "protected",
    "public"].contains word

/-- A word that cannot be exported under its own name without a `from` clause. -/
def isUnexportable (word : String) : Bool :=
  (isKeyword word && !(["await", "let", "yield"].contains word))
    || word == "enum" || word == "package"

/-- The two names that strict code may not bind. -/
def isUnbindable (name : String) : Bool :=
  name == "eval" || name == "arguments"

end WebModules.Script
