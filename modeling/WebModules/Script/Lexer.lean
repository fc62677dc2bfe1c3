import WebModules.Script.Lexeme

/-!
Reading one token.  The same text can start different tokens at different points of the grammar (a
slash divides or opens a regular expression, two closing angles are one sign or end two type
lists), so the reader says in which `Mode` the next token is to be read.
-/

namespace WebModules.Script

inductive Mode
  | plain
  /-- Among types, where each angle is a token of its own. -/
  | type
  /-- At the slash of a regular expression. -/
  | regex
  /-- Within a template, at a stretch of its text. -/
  | templateText
  /-- Within a template, after a stretch of its text. -/
  | templateEdge
  deriving DecidableEq, Repr, Inhabited

namespace Lexer

/-- What is being passed over between two tokens. -/
inductive Gap
  | blank
  | line
  | block

/-- The cursor at the next character that belongs to a token, whether a line ended on the way, and
whether the text ended within a block comment that began at the given place. -/
structure Passed where
  cursor : Cursor
  lineBreak : Bool
  unterminated : Option Nat := none

/-- Passes over blanks, line breaks and comments. -/
def passGap (gap : Gap) (opened : Nat) (lineBreak : Bool) : List Char → Nat → Passed
  | [], pos =>
    match gap with
    | .block => ⟨⟨[], pos⟩, lineBreak, some opened⟩
    | _ => ⟨⟨[], pos⟩, lineBreak, none⟩
  | c :: r, pos =>
    match gap with
    | .line =>
      if isLineBreak c then passGap .blank opened true r (pos + c.utf8Size)
      else passGap .line opened lineBreak r (pos + c.utf8Size)
    | .block =>
      match c, r with
      | '*', '/' :: r => passGap .blank opened lineBreak r (pos + 2)
      | c, r => passGap .block opened (lineBreak || isLineBreak c) r (pos + c.utf8Size)
    | .blank =>
      match c, r with
      | '/', '/' :: r => passGap .line opened lineBreak r (pos + 2)
      | '/', '*' :: r => passGap .block pos lineBreak r (pos + 2)
      | c, r =>
        if isLineBreak c then passGap .blank opened true r (pos + c.utf8Size)
        else if isBlank c then passGap .blank opened lineBreak r (pos + c.utf8Size)
        else ⟨⟨c :: r, pos⟩, lineBreak, none⟩

/-- What was read at a place: a token, or something that the reader notes and passes over. -/
inductive Reading
  | token (token : Token) (after : Cursor) (value : List Char) (fault? : Option Fault)
      (faults : List Fault)
  | passed (after : Cursor) (fault : Fault)

def plainToken (token : Token) (after : Cursor) : Reading := .token token after [] none []

def malformed (after : Cursor) (complaint : Complaint) (pos : Nat) (faults : List Fault) : Reading :=
  .token .malformed after [] (some ⟨complaint, pos, ""⟩) faults

/-- A name read so far: its characters, what follows it, and how its escapes fail. -/
structure Word where
  name : List Char
  after : Cursor
  escaped : Bool := false
  complaint? : Option Complaint := none
  faults : List Complaint := []

/-- Reads the characters of a name.  The first `skip` characters belong to an escape already
read. -/
def wordFrom (first : Bool) : Nat → List Char → Nat → Word
  | _, [], pos => ⟨[], ⟨[], pos⟩, false, none, []⟩
  | skip + 1, c :: r, pos => wordFrom first skip r (pos + c.utf8Size)
  | 0, c :: r, pos =>
    if c = '\\' then
      if r.head? ≠ some 'u' then ⟨[], ⟨r, pos + 1⟩, true, some .unicodeEscapeExpected, []⟩
      else match Quoted.escape r with
        | (.text cs, taken) =>
          let word := wordFrom false taken r (pos + 1)
          let valid := match cs with
            | [ch] => if first then isNameStart ch else isNamePart ch
            | _ => false
          ⟨cs ++ word.name, word.after, true, word.complaint?,
            if valid then word.faults else .invalidNameCharacter :: word.faults⟩
        | (.bad complaint, _) => ⟨[], ⟨r, pos + 1⟩, true, some complaint, []⟩
        | (.octal _, _) => ⟨[], ⟨r, pos + 1⟩, true, some .unicodeEscapeExpected, []⟩
    else if isNamePart c then
      let word := wordFrom false 0 r (pos + c.utf8Size)
      { word with name := c :: word.name }
    else ⟨[], ⟨c :: r, pos⟩, false, none, []⟩

def readWord (c : Cursor) : Reading :=
  let word := wordFrom true 0 c.rest c.pos
  let faults := word.faults.map fun complaint => ⟨complaint, c.pos, ""⟩
  match word.complaint? with
  | some complaint => malformed word.after complaint c.pos faults
  | none =>
    let name := String.ofList word.name
    if word.escaped && isReserved name then
      malformed word.after (.escapedReservedWord name) c.pos faults
    else .token (.word name) word.after [] none faults

def isDigitOf (radix : Nat) (c : Char) : Bool :=
  match hexDigit? c with
  | some d => d < radix
  | none => false

/-- Whether some separator in `cs`, digits and separators up to the rest, is not followed by a
digit. -/
def hasMisplacedSeparator (radix : Nat) : List Char → Bool
  | [] => false
  | '_' :: r => !((r.head?.map (isDigitOf radix)).getD false) || hasMisplacedSeparator radix r
  | _ :: r => hasMisplacedSeparator radix r

/-- A run of digits and separators. -/
structure Digits where
  digits : List Char
  after : Cursor
  faults : List Fault

def readDigits (radix : Nat) (c : Cursor) : Digits :=
  let run := c.rest.takeWhile fun ch => isDigitOf radix ch || ch == '_'
  ⟨run.filter (· != '_'), c.past run,
    if hasMisplacedSeparator radix run then [⟨.misplacedSeparator, c.pos, ""⟩] else []⟩

/-- The end of a number: no name may follow at once. -/
def endNumber (after : Cursor) (faults : List Fault) : Reading :=
  if (after.head?.map isNameStart).getD false then
    malformed after .nameAfterNumber after.pos faults
  else .token .number after [] none faults

/-- The exponent of a number, if there is one, and the end of the number. -/
def readExponent (c : Cursor) (faults : List Fault) : Reading :=
  if c.head? = some 'e' ∨ c.head? = some 'E' then
    let afterMark := c.next
    match afterMark.head? with
    | none => malformed afterMark .exponentExpected afterMark.pos faults
    | some sign =>
      let atDigits := if sign = '+' ∨ sign = '-' then afterMark.next else afterMark
      let run := readDigits 10 atDigits
      let faults := faults ++ run.faults
      if run.digits.isEmpty then malformed run.after (.digitExpected 10) atDigits.pos faults
      else endNumber run.after faults
  else endNumber c faults

/-- The fraction of a number, if there is one, and the rest of the number. -/
def readFraction (c : Cursor) (faults : List Fault) : Reading :=
  if c.head? = some '.' then
    let run := readDigits 10 c.next
    readExponent run.after (faults ++ run.faults)
  else readExponent c faults

/-- A number in decimal notation.  Digits after a leading zero make it an octal number of old, or,
with a digit beyond seven, a decimal one that strict code does not allow. -/
def readDecimal (c : Cursor) : Reading :=
  if c.head? = some '.' then readFraction c []
  else
    let run := readDigits 10 c
    if run.after.head? = some 'n' then .token .bigint run.after.next [] none run.faults
    else if c.head? = some '0' ∧ c.next.pos ≠ run.after.pos then
      if run.digits.any fun d => d = '8' ∨ d = '9' then
        readFraction run.after (run.faults ++ [⟨.legacyDecimal, c.pos, ""⟩])
      else if (run.after.head?.map isNameStart).getD false then
        malformed run.after .nameAfterNumber run.after.pos run.faults
      else
        .token .number run.after [] none (run.faults ++ [⟨.legacyOctalNumber, c.pos, ""⟩])
    else readFraction run.after run.faults

/-- A number whose base is given by the letter after its zero. -/
def readRadix (radix : Nat) (c : Cursor) : Reading :=
  let atDigits := c.next.next
  let run := readDigits radix atDigits
  if run.digits.isEmpty then malformed run.after (.digitExpected radix) atDigits.pos run.faults
  else if run.after.head? = some 'n' then .token .bigint run.after.next [] none run.faults
  else endNumber run.after run.faults

def readNumber (c : Cursor) : Reading :=
  match c.rest with
  | '0' :: r :: _ =>
    if r = 'x' ∨ r = 'X' then readRadix 16 c
    else if r = 'o' ∨ r = 'O' then readRadix 8 c
    else if r = 'b' ∨ r = 'B' then readRadix 2 c
    else readDecimal c
  | _ => readDecimal c

def readString (quote : Char) (c : Cursor) : Reading :=
  let (inside, rest) := Quoted.interior quote c.next.rest
  let after : Cursor := ⟨rest, c.pos + 1 + utf8Length inside⟩
  let octals := (Quoted.octals inside).map fun pos =>
    (⟨.legacyOctalEscape, c.pos + 1 + pos, ""⟩ : Fault)
  match Quoted.firstBad? inside with
  | some (complaint, pos) => malformed after complaint (c.pos + 1 + pos) octals
  | none =>
    if rest.head? = some quote then .token .string after.next (Quoted.decode inside) none octals
    else
      .token .string after (Quoted.decode inside) none
        (octals ++ [⟨.unterminatedString, c.pos, ""⟩])

def readRegex (c : Cursor) : Reading :=
  let (inside, rest) := Quoted.regexBody false false c.next.rest
  let after : Cursor := ⟨rest, c.pos + 1 + utf8Length inside⟩
  if rest.head? = some '/' then
    let flags := after.next.rest.takeWhile isNamePart
    .token .regex (after.next.past flags) flags none []
  else malformed after .unterminatedRegex c.pos []

def readTemplateText (c : Cursor) : Reading :=
  let (inside, rest) := Quoted.stretch c.rest
  let after : Cursor := ⟨rest, c.pos + utf8Length inside⟩
  if rest.isEmpty then malformed after .unterminatedTemplate c.pos []
  else match Quoted.firstUncooked? inside with
    | some (complaint, pos) =>
      .token (.template false) after [] (some ⟨complaint, c.pos + pos, ""⟩) []
    | none => .token (.template true) after (Quoted.decode inside) none []

/-- The signs of one to four characters, longest first among those with a common start, except
those that the point of the grammar decides. -/
def signs : List (String × Sign) :=
  [(">>>=", .assignWith .shiftRightUnsigned),
    ("...", .ellipsis), ("===", .identical), ("!==", .notIdentical), ("**=", .assignWith .power),
    ("<<=", .assignWith .shiftLeft), (">>=", .assignWith .shiftRight),
    (">>>", .shiftRightUnsigned), ("&&=", .assignWith .and), ("||=", .assignWith .or),
    ("??=", .assignWith .coalesce),
    ("=>", .arrow), ("==", .equal), ("!=", .notEqual), ("++", .increment), ("--", .decrement),
    ("+=", .assignWith .plus), ("-=", .assignWith .minus), ("*=", .assignWith .times),
    ("/=", .assignWith .divide), ("%=", .assignWith .modulo), ("&=", .assignWith .bitAnd),
    ("|=", .assignWith .bitOr), ("^=", .assignWith .bitXor), ("**", .power), ("<<", .shiftLeft),
    (">>", .shiftRight), ("<=", .lessEqual), (">=", .greaterEqual), ("&&", .and), ("||", .or),
    ("??", .coalesce),
    ("(", .openParen), (")", .closeParen), ("[", .openBracket), ("]", .closeBracket),
    ("\x7b", .openBrace), ("\x7d", .closeBrace), (".", .dot), (",", .comma), (";", .semicolon),
    (":", .colon), ("?", .question), ("!", .bang), ("~", .tilde), ("@", .atSign), ("#", .hash),
    ("`", .backtick), ("+", .plus), ("-", .minus), ("*", .times), ("/", .divide), ("%", .modulo),
    ("&", .bitAnd), ("|", .bitOr), ("^", .bitXor), ("<", .less), (">", .greater), ("=", .assign)]

/-- The beginnings of a merge conflict's lines. -/
def conflictMarkers : List String := ["<<<<<<< ", ">>>>>>> ", "=======", "||||||| "]

def skipLine (c : Cursor) : Cursor := c.skipWhile fun ch => !isLineBreak ch

def readSign (mode : Mode) (afterLineBreak : Bool) (c : Cursor) : Reading :=
  if mode = .type ∧ c.at? "<" then plainToken (.sign .less) c.next
  else if mode = .type ∧ c.at? ">" then plainToken (.sign .greater) c.next
  else if c.at? "<!--" ∨ (c.at? "-->" ∧ afterLineBreak) then
    .passed (skipLine c) ⟨.legacyComment, c.pos, ""⟩
  else if afterLineBreak ∧ conflictMarkers.any c.at? then
    .passed (skipLine c) ⟨.conflictMarker, c.pos, ""⟩
  else match signs.find? fun s => c.at? s.1 with
    | some (text, sign) => plainToken (.sign sign) (c.skip text.length)
    | none =>
      match c.rest with
      | ch :: _ => malformed c.next (.unexpectedCharacter ch) c.pos []
      | [] => plainToken .finish c

/-- The token at `c`, where no blank and no comment stands. -/
def readToken (mode : Mode) (afterLineBreak : Bool) (c : Cursor) : Reading :=
  match c.rest with
  | [] => plainToken .finish c
  | ch :: r =>
    if mode = .regex ∧ ch = '/' then readRegex c
    else if isNameStart ch ∨ ch = '\\' then readWord c
    else if ch.isDigit then readNumber c
    else if ch = '.' ∧ (r.head?.map Char.isDigit).getD false then readNumber c
    else if ch = '\'' ∨ ch = '"' then readString ch c
    else readSign mode afterLineBreak c

/-- The token at `c` within a template. -/
def readEdge (c : Cursor) : Reading :=
  match c.rest with
  | '`' :: _ => plainToken (.sign .backtick) c.next
  | '$' :: '{' :: _ => plainToken (.sign .dollarBrace) c.next.next
  | ch :: _ => malformed c.next (.unexpectedCharacter ch) c.pos []
  | [] => plainToken .finish c

/-- A lexeme, the place after it, and what the reader noted on the way. -/
structure Scanned where
  lexeme : Lexeme
  after : Cursor
  faults : List Fault

def scanned (c : Cursor) (afterLineBreak : Bool) (noted : List Fault) (token : Token)
    (after : Cursor) (value : List Char) (fault? : Option Fault) (faults : List Fault) : Scanned :=
  ⟨⟨token, c.pos, after.pos, afterLineBreak || token == .finish, c.upTo after, value, fault?⟩,
    after, noted ++ faults⟩

/-- Reads the next token among tokens, passing over blanks and comments first.  Each note passed
over takes at least one character, so `fuel` beyond the length of the text is never used up. -/
def scanFrom (mode : Mode) : Nat → Bool → List Fault → Cursor → Scanned
  | 0, lineBreak, noted, c => scanned c lineBreak noted .finish c [] none []
  | fuel + 1, lineBreak, noted, c =>
    let gap := passGap .blank 0 lineBreak c.rest c.pos
    let noted := match gap.unterminated with
      | some pos => noted ++ [⟨.unterminatedComment, pos, ""⟩]
      | none => noted
    match readToken mode gap.lineBreak gap.cursor with
    | .token token after value fault? faults =>
      scanned gap.cursor gap.lineBreak noted token after value fault? faults
    | .passed after fault => scanFrom mode fuel gap.lineBreak (noted ++ [fault]) after

/-- The lexeme at or after `c`.  `first` tells that no token precedes it, which counts as the start
of a line. -/
def scan (mode : Mode) (first : Bool) (c : Cursor) : Scanned :=
  let template (reading : Reading) : Scanned :=
    match reading with
    | .token token after value fault? faults =>
      scanned c false [] token after value fault? faults
    | .passed after fault => scanned c false [fault] .finish after [] none []
  match mode with
  | .templateText => template (readTemplateText c)
  | .templateEdge => template (readEdge c)
  | _ =>
    if first ∧ c.at? "#!" then
      scanned c true [] .shebang (skipLine c) [] none []
    else scanFrom mode (c.rest.length + 1) first [] c

end Lexer

end WebModules.Script
