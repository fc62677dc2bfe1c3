import WebModules.Json.Value

/-!
Reading JSON documents.  Objects keep repeated fields as they are written; `Json.read` makes them
distinct.  Real numbers are read in two steps, each of which rounds: the digits become a number,
and that is scaled by a power of ten.
-/

namespace WebModules.Json

open WebModules.Number

/-- What can be wrong with the text of a document. -/
inductive Problem
  | endInValue | endInString | endInArray | endInObject
  | valueExpected | literalExpected | colonExpected | commaOrBraceExpected
  | commaOrBracketExpected | trailingComma | trailingCharacters | keyExpected
  | invalidNumber | numberOutOfRange | invalidEscape | endOfHexEscape | loneSurrogate
  | controlCharacter | tooDeep
  deriving DecidableEq, Repr, Inhabited

def Problem.message : Problem → String
  | endInValue => "EOF while parsing a value"
  | endInString => "EOF while parsing a string"
  | endInArray => "EOF while parsing a list"
  | endInObject => "EOF while parsing an object"
  | valueExpected => "expected value"
  | literalExpected => "expected ident"
  | colonExpected => "expected `:`"
  | commaOrBraceExpected => "expected `,` or `\x7d`"
  | commaOrBracketExpected => "expected `,` or `]`"
  | trailingComma => "trailing comma"
  | trailingCharacters => "trailing characters"
  | keyExpected => "key must be a string"
  | invalidNumber => "invalid number"
  | numberOutOfRange => "number out of range"
  | invalidEscape => "invalid escape"
  | endOfHexEscape => "unexpected end of hex escape"
  | loneSurrogate => "lone leading surrogate in hex escape"
  | controlCharacter => "control character (\\u0000-\\u001F) found while parsing a string"
  | tooDeep => "recursion limit exceeded"

/-- A place of a text: what follows it, and the number of bytes before it. -/
structure Input where
  rest : List Char
  pos : Nat
  deriving Repr, Inhabited

namespace Input

/-- The place after the first character of the rest. -/
def next (i : Input) : Input :=
  match i.rest with
  | [] => i
  | c :: r => ⟨r, i.pos + c.utf8Size⟩

/-- The place after `n` characters of one byte each. -/
def skip (n : Nat) (i : Input) : Input := ⟨i.rest.drop n, i.pos + n⟩

def isBlank (c : Char) : Bool := c == ' ' || c == '\n' || c == '\t' || c == '\r'

/-- Past blanks and line breaks. -/
def skipBlanks (i : Input) : Input := i.skip (i.rest.takeWhile isBlank).length

/-- Just behind the first byte of the next character, if there is one. -/
def behindNext (i : Input) : Nat := if i.rest.isEmpty then i.pos else i.pos + 1

end Input

/-- A problem, and the number of bytes before the place where it shows. -/
structure Failure where
  problem : Problem
  pos : Nat
  deriving DecidableEq, Repr, Inhabited

/-- A problem with what has been read. -/
def failHere {α : Type} (problem : Problem) (i : Input) : Except Failure α :=
  .error ⟨problem, i.pos⟩

/-- A problem with the next character. -/
def failNext {α : Type} (problem : Problem) (i : Input) : Except Failure α :=
  .error ⟨problem, i.behindNext⟩

/-- The end of the text, or another problem with the next character. -/
def failAtEnd {α : Type} (atEnd other : Problem) (i : Input) : Except Failure α :=
  failNext (if i.rest.isEmpty then atEnd else other) i

/-- Reads the rest of one of the words of JSON. -/
def readLetters : List Char → Input → Except Failure Input
  | [], i => .ok i
  | expected :: letters, i =>
    match i.rest with
    | [] => failHere .endInValue i
    | c :: _ =>
      if c = expected then readLetters letters i.next else failHere .literalExpected i.next

/-- The largest integer of 64 bits. -/
def maxNatural : Nat := Nat.pow 2 64 - 1

def digitValue (c : Char) : Nat := c.toNat - '0'.toNat

/-- Reads digits into a number of 64 bits as long as they fit: the number, and how many digits
there were. -/
def addDigits (n count : Nat) : Input → Nat × Nat × Input
  | ⟨[], pos⟩ => (n, count, ⟨[], pos⟩)
  | ⟨c :: r, pos⟩ =>
    if c.isDigit ∧ n * 10 + digitValue c ≤ maxNatural then
      addDigits (n * 10 + digitValue c) (count + 1) ⟨r, pos + 1⟩
    else (n, count, ⟨c :: r, pos⟩)
termination_by i => i.rest.length

def skipDigits (i : Input) : Nat × Input :=
  let count := (i.rest.takeWhile Char.isDigit).length
  (count, i.skip count)

/-- Scales a number by a power of ten; there is no result where it would be too large. -/
def scale : Nat → Binary64 → Int → Option Binary64
  | 0, x, _ => some x
  | fuel + 1, x, exponent =>
    if exponent.natAbs ≤ 308 then
      let power := Binary64.ofNat (Nat.pow 10 exponent.natAbs)
      if 0 ≤ exponent then
        match x.mul power with
        | .infinite => none
        | scaled => some scaled
      else some (x.div power)
    else if x.isZero then some x
    else if 0 ≤ exponent then none
    else scale fuel (x.div (Binary64.ofNat (Nat.pow 10 308))) (exponent + 308)

/-- A real number with the given digits and exponent. -/
def real (lenient negative : Bool) (digits : Nat) (exponent : Int) (i : Input) :
    Except Failure (Json.Number × Input) :=
  match scale 8 (Binary64.ofNat digits) exponent with
  | some x => .ok (.real negative x, i)
  | none => if lenient then .ok (.integer 0, i) else failHere .numberOutOfRange i

/-- The largest exponent that is read as such. -/
def maxExponent : Nat := Nat.pow 2 31 - 1

/-- Reads the digits of an exponent as long as they fit. -/
def addExponentDigits (n : Nat) : Input → Nat × Bool × Input
  | ⟨[], pos⟩ => (n, true, ⟨[], pos⟩)
  | ⟨c :: r, pos⟩ =>
    if c.isDigit then
      if maxExponent < n * 10 + digitValue c then (n, false, ⟨r, pos + 1⟩)
      else addExponentDigits (n * 10 + digitValue c) ⟨r, pos + 1⟩
    else (n, true, ⟨c :: r, pos⟩)
termination_by i => i.rest.length

/-- Reads an exponent from its letter on. -/
def readExponent (lenient negative : Bool) (digits : Nat) (exponent : Int) (i : Input) :
    Except Failure (Json.Number × Input) :=
  let i := i.next
  let sign := i.rest.head?
  let i := if sign = some '+' ∨ sign = some '-' then i.next else i
  match i.rest with
  | [] => failHere .endInValue i
  | c :: _ =>
    if c.isDigit then
      match addExponentDigits (digitValue c) i.next with
      | (n, true, i) =>
        real lenient negative digits (if sign = some '-' then exponent - n else exponent + n) i
      | (_, false, i) =>
        if digits ≠ 0 ∧ sign ≠ some '-' ∧ !lenient then failHere .numberOutOfRange i
        else .ok (.real negative (Binary64.ofNat 0), (skipDigits i).2)
    else failHere .invalidNumber i.next

/-- Reads an exponent if there is one, and ends the number. -/
def endReal (lenient negative : Bool) (digits : Nat) (exponent : Int) (i : Input) :
    Except Failure (Json.Number × Input) :=
  if i.rest.head? = some 'e' ∨ i.rest.head? = some 'E' then
    readExponent lenient negative digits exponent i
  else real lenient negative digits exponent i

/-- Reads the fraction of a number from its point on. -/
def readFraction (lenient negative : Bool) (digits : Nat) (exponent : Int) (i : Input) :
    Except Failure (Json.Number × Input) :=
  let i := i.next
  let (digits, count, after) := addDigits digits 0 i
  let (ignored, after) := skipDigits after
  if count + ignored = 0 then failAtEnd .endInValue .invalidNumber after
  else endReal lenient negative digits (exponent - (count : Int)) after

/-- Ends a number that has no more digits before the point than `digits`. -/
def endInteger (lenient negative : Bool) (digits : Nat) (i : Input) :
    Except Failure (Json.Number × Input) :=
  match i.rest.head? with
  | some '.' => readFraction lenient negative digits 0 i
  | some 'e' | some 'E' => readExponent lenient negative digits 0 i
  | _ =>
    if !negative then .ok (.integer digits, i)
    else if digits = 0 ∨ Nat.pow 2 63 < digits then .ok (.real true (Binary64.ofNat digits), i)
    else .ok (.integer (-(digits : Int)), i)

def readNumber (lenient negative : Bool) (i : Input) : Except Failure (Json.Number × Input) :=
  match i.rest with
  | [] => failHere .endInValue i
  | '0' :: r =>
    if (r.head?.map Char.isDigit).getD false then failNext .invalidNumber i.next
    else endInteger lenient negative 0 i.next
  | c :: _ =>
    if !c.isDigit then failHere .invalidNumber i.next
    else
      let (digits, _, after) := addDigits 0 0 i
      let (ignored, end_) := skipDigits after
      if ignored = 0 then endInteger lenient negative digits after
      else if end_.rest.head? = some '.' then readFraction lenient negative digits ignored end_
      else endReal lenient negative digits ignored end_

def hexValue? (c : Char) : Option Nat :=
  if c.isDigit then some (digitValue c)
  else if 'a' ≤ c ∧ c ≤ 'f' then some (c.toNat - 'a'.toNat + 10)
  else if 'A' ≤ c ∧ c ≤ 'F' then some (c.toNat - 'A'.toNat + 10)
  else none

def byteLength (cs : List Char) : Nat := cs.foldr (fun c length => c.utf8Size + length) 0

/-- Reads the four digits of an escape. -/
def readHex (i : Input) : Except Failure (Nat × Input) :=
  if byteLength (i.rest.take 4) < 4 then .error ⟨.endInString, i.pos + byteLength i.rest⟩
  else
    match (i.rest.take 4).mapM hexValue? with
    | some [a, b, c, d] => .ok (((a * 16 + b) * 16 + c) * 16 + d, i.skip 4)
    | _ => .error ⟨.invalidEscape, i.pos + 4⟩

/-- Reads the second escape of a character that takes two. -/
def readSecondHalf (first : Nat) (i : Input) : Except Failure (List Char × Input) :=
  match i.rest with
  | '\\' :: 'u' :: _ => do
    let (second, after) ← readHex (i.skip 2)
    if 0xdc00 ≤ second ∧ second ≤ 0xdfff then
      return ([Char.ofNat ((first - 0xd800) * 1024 + (second - 0xdc00) + 0x10000)], after)
    else failHere .loneSurrogate after
  | '\\' :: _ :: _ => failHere .endOfHexEscape ⟨i.rest, i.pos + 2⟩
  | ['\\'] => failHere .endInString i.next
  | [] => failHere .endInString i
  | _ => failHere .endOfHexEscape ⟨i.rest, i.pos + 1⟩

/-- Reads an escape of a character by its number, after the letter that starts it.  What a lenient
reader makes of halves of characters does not matter. -/
def readUnicode (lenient : Bool) (i : Input) : Except Failure (List Char × Input) := do
  let (n, after) ← readHex i
  if n < 0xd800 ∨ 0xdfff < n then return ([Char.ofNat n], after)
  else if lenient then return ([], after)
  else if 0xdc00 ≤ n then failHere .loneSurrogate after
  else readSecondHalf n after

/-- Reads an escape after its backslash. -/
def readEscape (lenient : Bool) (i : Input) : Except Failure (List Char × Input) :=
  match i.rest with
  | [] => failHere .endInString i
  | c :: _ =>
    match c with
    | '"' | '\\' | '/' => .ok ([c], i.next)
    | 'b' => .ok (['\x08'], i.next)
    | 'f' => .ok (['\x0c'], i.next)
    | 'n' => .ok (['\n'], i.next)
    | 'r' => .ok (['\r'], i.next)
    | 't' => .ok (['\t'], i.next)
    | 'u' => readUnicode lenient i.next
    | _ => failHere .invalidEscape i.next

/-- Reads a quoted text after its opening quote.  `fuel` is at least the number of characters. -/
def readString (lenient : Bool) : Nat → Input → Except Failure (List Char × Input)
  | 0, i => failHere .endInString i
  | fuel + 1, i =>
    match i.rest with
    | [] => failHere .endInString i
    | '"' :: _ => .ok ([], i.next)
    | '\\' :: _ => do
      let (cs, after) ← readEscape lenient i.next
      let (more, after) ← readString lenient fuel after
      return (cs ++ more, after)
    | c :: _ =>
      if c.toNat < 32 then failHere .controlCharacter i.next
      else do
        let (more, after) ← readString lenient fuel i.next
        return (c :: more, after)

/-- Reads a quoted text from its opening quote on. -/
def readText (lenient : Bool) (i : Input) : Except Failure (String × Input) := do
  let (cs, after) ← readString lenient (i.rest.length + 1) i.next
  return (String.ofList cs, after)

/-- Reads the items of an array after the first of them, if `first` says that there is none yet,
or after another one, up to the closing bracket. -/
def readItems (item : Input → Except Failure (Json × Input)) :
    Nat → Bool → Input → Except Failure (List Json × Input)
  | 0, _, i => failHere .endInArray i
  | fuel + 1, first, i =>
    let i := i.skipBlanks
    let goOn (i : Input) : Except Failure (List Json × Input) := do
      let (value, after) ← item i
      let (values, after) ← readItems item fuel false after
      return (value :: values, after)
    match i.rest with
    | [] => failNext .endInArray i
    | ']' :: _ => .ok ([], i.next)
    | c :: _ =>
      if first then goOn i
      else if c = ',' then
        let i := i.next.skipBlanks
        match i.rest with
        | [] => failNext .endInValue i
        | ']' :: _ => failNext .trailingComma i
        | _ => goOn i
      else failNext .commaOrBracketExpected i

def readColon (i : Input) : Except Failure Input :=
  let i := i.skipBlanks
  match i.rest with
  | ':' :: _ => .ok i.next
  | _ => failAtEnd .endInObject .colonExpected i

/-- Reads the fields of an object up to the closing brace; how the value of a field is read may
depend on its name. -/
def readFields {α : Type} (lenientKeys : Bool)
    (value : String → Input → Except Failure (α × Input)) :
    Nat → Bool → Input → Except Failure (List (String × α) × Input)
  | 0, _, i => failHere .endInObject i
  | fuel + 1, first, i =>
    let i := i.skipBlanks
    let goOn (i : Input) : Except Failure (List (String × α) × Input) := do
      let (name, after) ← readText lenientKeys i
      let after ← readColon after
      let (v, after) ← value name after
      let (fields, after) ← readFields lenientKeys value fuel false after
      return ((name, v) :: fields, after)
    match i.rest with
    | [] => failNext .endInObject i
    | '}' :: _ => .ok ([], i.next)
    | c :: _ =>
      if first then
        if c = '"' then goOn i else failNext .keyExpected i
      else if c = ',' then
        let i := i.next.skipBlanks
        match i.rest with
        | [] => failNext .endInValue i
        | '"' :: _ => goOn i
        | '}' :: _ => failNext .trailingComma i
        | _ => failNext .keyExpected i
      else failNext .commaOrBraceExpected i

/-- Reads a value that is nested less than `depth` deep.  A lenient reader takes numbers of any size
and halves of characters, for values that do not matter. -/
def readValue (lenient : Bool) : Nat → Input → Except Failure (Json × Input)
  | depth, i =>
    let i := i.skipBlanks
    match i.rest with
    | [] => failNext .endInValue i
    | c :: _ =>
      if c = 'n' then do return (.null, ← readLetters "ull".toList i.next)
      else if c = 't' then do return (.bool true, ← readLetters "rue".toList i.next)
      else if c = 'f' then do return (.bool false, ← readLetters "alse".toList i.next)
      else if c = '-' then do
        let (n, after) ← readNumber lenient true i.next
        return (.number n, after)
      else if c.isDigit then do
        let (n, after) ← readNumber lenient false i
        return (.number n, after)
      else if c = '"' then do
        let (s, after) ← readText lenient i
        return (.string s, after)
      else if c = '[' then
        match depth with
        | 0 => failNext .tooDeep i
        | depth + 1 => do
          let (items, after) ← readItems (readValue lenient depth) (i.rest.length + 1) true i.next
          return (.array items, after)
      else if c = '{' then
        match depth with
        | 0 => failNext .tooDeep i
        | depth + 1 => do
          let (fields, after) ←
            readFields lenient (fun _ => readValue lenient depth) (i.rest.length + 1) true i.next
          return (.object fields, after)
      else failNext .valueExpected i

/-- How deep values may be nested. -/
def maxDepth : Nat := 127

/-- A text that is no JSON document. -/
structure ParseError where
  problem : Problem
  line : Nat
  column : Nat
  deriving DecidableEq, Repr, Inhabited

def ParseError.message (e : ParseError) : String :=
  e.problem.message ++ " at line " ++ toString e.line ++ " column " ++ toString e.column

/-- The line of the place that `pos` bytes precede, and the number of bytes between the start of
the line and the place. -/
def lineColumn (line column : Nat) : Nat → List Char → Nat × Nat
  | 0, _ => (line, column)
  | _ + 1, [] => (line, column)
  | pos + 1, c :: r =>
    if c = '\n' then lineColumn (line + 1) 0 pos r
    else
      let size := min c.utf8Size (pos + 1)
      lineColumn line (column + size) (pos + 1 - size) r
termination_by _ cs => cs.length

def Failure.toError (text : List Char) (f : Failure) : ParseError :=
  let (line, column) := lineColumn 1 0 f.pos text
  ⟨f.problem, line, column⟩

/-- Nothing but blanks may follow a document. -/
def readEnd (i : Input) : Except Failure Unit :=
  let i := i.skipBlanks
  if i.rest.isEmpty then .ok () else failNext .trailingCharacters i

/-- Reads a document, keeping repeated fields. -/
def parse (text : String) : Except ParseError Json :=
  let whole : Except Failure Json := do
    let (value, after) ← readValue false maxDepth ⟨text.toList, 0⟩
    readEnd after
    return value
  whole.mapError (Failure.toError text.toList)

mutual

/-- The document in which the fields of each object are distinct. -/
def distinct : Json → Json
  | array items => array (distinctItems items)
  | object fields => object (distinctFields (distinctValues fields))
  | j => j

def distinctItems : List Json → List Json
  | [] => []
  | item :: items => distinct item :: distinctItems items

def distinctValues : List (String × Json) → List (String × Json)
  | [] => []
  | (name, value) :: fields => (name, distinct value) :: distinctValues fields

end

/-- Reads a document.  Of a repeated field the last value counts. -/
def read (text : String) : Except ParseError Json := (parse text).map distinct

end WebModules.Json
