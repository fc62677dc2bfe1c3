import WebModules.Toml.Number
import WebModules.Toml.Table

/-!
Documents: keys with values on lines of their own, under the headers of tables.
-/

namespace WebModules.Toml

/-- Values may be nested in fewer arrays and tables on one line, and keys have fewer parts. -/
def maxDepth : Nat := 80

def isBareKeyChar (c : Char) : Bool := c.isAlphanum || c == '_' || c == '-'

def keyPart : Reader String := do
  let bare : Reader (List Char) := do
    let cs ← Reader.takeWhile isBareKeyChar
    if cs.isEmpty then failure else return cs
  return String.ofList (← basic <|> literal <|> bare)

/-- The parts of a key between dots. -/
def key : Reader (List String) := do
  let part : Reader String := do
    blanks
    let name ← keyPart
    blanks
    return name
  let names ← Reader.separated part (Reader.char '.')
  if names.length < maxDepth then return names else failure

def assignKey (names : List String) (value : Value) (entries : Entries) : Option Entries := do
  assignDotted (← names.getLast?) value names.dropLast entries

def keyValue (value : Reader Value) : Reader (List String × Value) := do
  let names ← key
  Reader.char '='
  blanks
  return (names, ← value)

/-- The items of an array after its bracket. -/
def arrayItems (value : Reader Value) : Reader (List Value) := do
  let item : Reader Value := do
    space
    let v ← value
    space
    return v
  let comma := Reader.char ','
  let items ← Reader.optional (Reader.separated item comma)
  if items.isSome then
    let _ ← Reader.optional comma
  space
  Reader.char ']'
  return items.getD []

/-- The entries of a table on one line, after its brace. -/
def inlineEntries (value : Reader Value) : Reader (List (String × Value)) := do
  let entry : Reader (List String × Value) := do
    let found ← keyValue value
    blanks
    return found
  let pairs ← Reader.optional (Reader.separated entry (Reader.char ','))
  blanks
  Reader.char '\x7d'
  match (pairs.getD []).foldlM (fun entries pair => assignKey pair.1 pair.2 entries) [] with
  | some entries => return entryValues entries
  | none => failure

/-- A value that may be nested so deep. -/
def value : Nat → Reader Value
  | 0 => failure
  | depth + 1 => do
    let simple : Reader Value :=
      (do return .text (String.ofList (← quoted)))
        <|> (do dateTime; return .dateTime)
        <|> (do float; return .scalar)
        <|> (do return .integer (← integer))
        <|> (do Reader.chars "true" <|> Reader.chars "false"; return .scalar)
    let array : Reader Value := do
      Reader.char '['
      return .array (← arrayItems (value depth))
    let table : Reader Value := do
      Reader.char '\x7b'
      return .table (← inlineEntries (value depth))
    if depth = 0 then simple else simple <|> array <|> table

/-- What stands on a line. -/
inductive Line
  | blank
  /-- The header of a table. -/
  | header (names : List String)
  /-- The header of one of several tables. -/
  | item (names : List String)
  | entry (names : List String) (value : Value)
  deriving Repr, Inhabited

def line : Reader Line := do
  blanks
  let header : Reader Line := do
    Reader.char '['
    let names ← key
    Reader.char ']'
    return .header names
  let item : Reader Line := do
    Reader.chars "[["
    let names ← key
    Reader.chars "]]"
    return .item names
  let entry : Reader Line := do
    let (names, v) ← keyValue (value maxDepth)
    return .entry names v
  let found ← item <|> header <|> entry <|> return .blank
  lineEnd
  return found

def lines : Nat → Reader (List Line)
  | 0 => return []
  | n + 1 => do
    if (← get).isEmpty then return []
    else return (← line) :: (← lines n)

/-- A document so far: its tables, and the one that entries belong to. -/
structure Draft where
  entries : Entries
  current : List String
  deriving Inhabited

namespace Draft

def addLine (d : Draft) : Line → Option Draft
  | .blank => some d
  | .header names => do
    let entries ← within (openTable (← names.getLast?)) names.dropLast d.entries
    return ⟨entries, names⟩
  | .item names => do
    let entries ← within (addTable (← names.getLast?)) names.dropLast d.entries
    return ⟨entries, names⟩
  | .entry names v => do
    return { d with entries := ← within (assignKey names v) d.current d.entries }

end Draft

/-- Reads a document: the entries of its outermost table.  A byte order mark at its start does not
count. -/
def parse? (text : String) : Option (List (String × Value)) := do
  let cs := match text.toList with
    | '\ufeff' :: rest => rest
    | cs => cs
  let (found, _) ← (lines (cs.length + 1)).run cs
  let draft ← found.foldlM Draft.addLine ⟨[], []⟩
  return entryValues draft.entries

end WebModules.Toml
