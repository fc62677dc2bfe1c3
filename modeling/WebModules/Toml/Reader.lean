/-!
Readers take values off the front of a text.  A reader that fails has taken nothing.
-/

namespace WebModules.Toml

abbrev Reader := StateT (List Char) Option

namespace Reader

variable {α : Type}

def satisfying (test : Char → Bool) : Reader Char := fun cs =>
  match cs with
  | c :: rest => if test c then some (c, rest) else none
  | [] => none

def char (c : Char) : Reader Unit := do
  let _ ← satisfying (· == c)

/-- The next characters, which must be those of a text. -/
def chars (text : String) : Reader Unit := fun cs =>
  if text.toList.isPrefixOf cs then some ((), cs.drop text.length) else none

def takeWhile (test : Char → Bool) : Reader (List Char) := fun cs =>
  some (cs.takeWhile test, cs.dropWhile test)

def tried (read : Reader α) : Reader Bool := (do let _ ← read; return true) <|> return false

def optional (read : Reader α) : Reader (Option α) := (do return some (← read)) <|> return none

/-- As many values as there are, up to a number. -/
def upTo (read : Reader α) : Nat → Reader (List α)
  | 0 => return []
  | n + 1 => (do return (← read) :: (← upTo read n)) <|> return []

/-- As many values as there are.  No value is empty. -/
def many (read : Reader α) : Reader (List α) := do upTo read (← get).length

/-- Values with separators between them, at least one. -/
def separated (read : Reader α) (separator : Reader Unit) : Reader (List α) := do
  return (← read) :: (← many (do separator; read))

def ending : Reader Unit := fun cs => if cs.isEmpty then some ((), []) else none

end Reader

def blanks : Reader Unit := do
  let _ ← Reader.takeWhile fun c => c == ' ' || c == '\t'

def lineBreak : Reader Unit := Reader.chars "\n" <|> Reader.chars "\r\n"

/-- A character that may stand in a comment. -/
def isPrintable (c : Char) : Bool := c == '\t' || (' ' ≤ c && c != '\x7f')

def comment : Reader Unit := do
  Reader.char '#'
  let _ ← Reader.takeWhile isPrintable

/-- What may follow a value on its line, with the end of the line. -/
def lineEnd : Reader Unit := do
  blanks
  let _ ← Reader.optional comment
  lineBreak <|> Reader.ending

/-- Blanks, comments and line breaks. -/
def space : Reader Unit := do
  let part : Reader Unit :=
    (do let _ ← Reader.optional comment; lineBreak)
      <|> (do let _ ← Reader.satisfying fun c => c == ' ' || c == '\t')
  let _ ← Reader.many part

end WebModules.Toml
