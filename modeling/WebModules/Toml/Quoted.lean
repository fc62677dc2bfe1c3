import WebModules.Toml.Reader

/-!
Texts in quotes.  Between double quotes there are escapes, between single quotes there are none;
three quotes enclose a text of several lines.
-/

namespace WebModules.Toml

def isHexDigit (c : Char) : Bool := c.isDigit || ('a' ≤ c && c ≤ 'f') || ('A' ≤ c && c ≤ 'F')

def digitValue (c : Char) : Nat :=
  if c.isDigit then c.toNat - '0'.toNat
  else if 'a' ≤ c then c.toNat - 'a'.toNat + 10
  else c.toNat - 'A'.toNat + 10

def hexNumber : Nat → Nat → Reader Nat
  | 0, n => return n
  | count + 1, n => do hexNumber count (16 * n + digitValue (← Reader.satisfying isHexDigit))

/-- The character for a number of hexadecimal digits. -/
def codePoint (digits : Nat) : Reader Char := do
  let n ← hexNumber digits 0
  if n.isValidChar then return Char.ofNat n else failure

/-- The character that stands for itself or another one after a backslash. -/
def escaped : Reader Char := do
  Reader.char '\\'
  match ← Reader.satisfying fun _ => true with
  | 'b' => return '\x08'
  | 't' => return '\t'
  | 'n' => return '\n'
  | 'f' => return '\x0c'
  | 'r' => return '\r'
  | '"' => return '"'
  | '\\' => return '\\'
  | 'u' => codePoint 4
  | 'U' => codePoint 8
  | _ => failure

/-- A character without a special meaning in a text that ends with `quote`. -/
def plain (quote : Char) : Reader Char :=
  Reader.satisfying fun c => isPrintable c && c != quote && (quote == '\'' || c != '\\')

/-- A text in double quotes on one line. -/
def basic : Reader (List Char) := do
  Reader.char '"'
  let cs ← Reader.many (plain '"' <|> escaped)
  Reader.char '"'
  return cs

/-- A text in single quotes on one line. -/
def literal : Reader (List Char) := do
  Reader.char '\''
  let cs ← Reader.many (plain '\'')
  Reader.char '\''
  return cs

/-- A backslash at the end of a line, with all blanks and line breaks after it. -/
def continuation : Reader (List Char) := do
  Reader.char '\\'
  blanks
  lineBreak
  let _ ← Reader.many (lineBreak <|> do let _ ← Reader.satisfying fun c => c == ' ' || c == '\t')
  return []

/-- Up to two quotes that do not end a text. -/
def innerQuotes (quote : Char) : Reader (List Char) := fun cs =>
  let count := (cs.takeWhile (· == quote)).length
  if count = 1 ∨ count = 2 then some (List.replicate count quote, cs.drop count) else none

/-- The quotes at the end of a text of several lines: the three that end it, after up to two more
that belong to it. -/
def finalQuotes (quote : Char) : Reader (List Char) := fun cs =>
  let count := min 5 (cs.takeWhile (· == quote)).length
  if 3 ≤ count then some (List.replicate (count - 3) quote, cs.drop count) else none

/-- A text of several lines.  A line break right after the quotes does not belong to it. -/
def multiline (quote : Char) : Reader (List Char) := do
  Reader.chars (String.ofList [quote, quote, quote])
  let _ ← Reader.optional lineBreak
  let one (read : Reader Char) : Reader (List Char) := do return [← read]
  let escapes := if quote = '"' then continuation <|> one escaped else failure
  let broken : Reader (List Char) := do
    lineBreak
    return ['\n']
  let parts ← Reader.many (one (plain quote) <|> escapes <|> broken <|> innerQuotes quote)
  return parts.flatten ++ (← finalQuotes quote)

/-- A text in any quotes. -/
def quoted : Reader (List Char) :=
  multiline '"' <|> basic <|> multiline '\'' <|> literal

end WebModules.Toml
