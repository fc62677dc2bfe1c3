/-!
The tokens of a script, as far as the grammar tells them apart.  What a token stands for (the value
of a string, the digits of a number) is kept by the lexeme and never decides how a text is read.
-/

namespace WebModules.Script

/-- The marks that are not part of a word, a number or a quoted text. -/
inductive Sign
  | openParen | closeParen | openBracket | closeBracket | openBrace | closeBrace
  | dot | ellipsis | comma | semicolon | colon | question | arrow | bang | tilde
  | increment | decrement | atSign | hash | backtick | dollarBrace
  | equal | notEqual | identical | notIdentical
  | less | lessEqual | greater | greaterEqual
  | shiftLeft | shiftRight | shiftRightUnsigned
  | plus | minus | times | divide | modulo | power
  | bitOr | bitXor | bitAnd | or | and | coalesce
  | assign
  | assignWith (operator : Sign)
  deriving DecidableEq, Repr, Inhabited

namespace Sign

def text : Sign → String
  | openParen => "(" | closeParen => ")" | openBracket => "[" | closeBracket => "]"
  | openBrace => "\x7b" | closeBrace => "\x7d"
  | dot => "." | ellipsis => "..." | comma => "," | semicolon => ";" | colon => ":"
  | question => "?" | arrow => "=>" | bang => "!" | tilde => "~"
  | increment => "++" | decrement => "--" | atSign => "@" | hash => "#" | backtick => "`"
  | dollarBrace => "$\x7b"
  | equal => "==" | notEqual => "!=" | identical => "===" | notIdentical => "!=="
  | less => "<" | lessEqual => "<=" | greater => ">" | greaterEqual => ">="
  | shiftLeft => "<<" | shiftRight => ">>" | shiftRightUnsigned => ">>>"
  | plus => "+" | minus => "-" | times => "*" | divide => "/" | modulo => "%" | power => "**"
  | bitOr => "|" | bitXor => "^" | bitAnd => "&" | or => "||" | and => "&&" | coalesce => "??"
  | assign => "="
  | assignWith operator => operator.text ++ "="

/-- How tightly a sign binds its two operands, for the signs that stand between operands. -/
def precedence? : Sign → Option Nat
  | coalesce | or => some 1
  | and => some 2
  | bitOr => some 3
  | bitXor => some 4
  | bitAnd => some 5
  | equal | notEqual | identical | notIdentical => some 6
  | less | lessEqual | greater | greaterEqual => some 7
  | shiftLeft | shiftRight | shiftRightUnsigned => some 8
  | plus | minus => some 9
  | times | divide | modulo => some 10
  | power => some 11
  | _ => none

def isBinary (s : Sign) : Bool := s.precedence?.isSome

def isAssignment : Sign → Bool
  | assign | assignWith _ => true
  | _ => false

end Sign

inductive Token
  /-- The end of the text. -/
  | finish
  | word (name : String)
  | number
  | bigint
  | string
  | regex
  /-- A stretch of template text; `cooked` tells whether its escapes all stand for something. -/
  | template (cooked : Bool)
  /-- The first line of a script that starts with `#!`. -/
  | shebang
  | sign (s : Sign)
  /-- Characters that form no token. -/
  | malformed
  deriving DecidableEq, Repr, Inhabited

namespace Token

def isWord : Token → Bool
  | word _ => true
  | _ => false

/-- A word that may name a variable. -/
def isName (isReserved : String → Bool) : Token → Bool
  | word name => !isReserved name
  | _ => false

end Token

end WebModules.Script
