import WebModules.Number.Binary64
import WebModules.Script.Lexeme

/-!
Tokens as complaints show them: words and signs as they are written, and literals with what they
stand for.
-/

namespace WebModules.Script

open WebModules.Number

/-- The decimal number written by digits with a point and an exponent, each of which may be
missing. -/
def decimalNumeral (cs : List Char) : Decimal :=
  let digits (cs : List Char) : List Char := cs.takeWhile fun c => c.isDigit
  let isExponentMark (c : Char) : Bool := c == 'e' || c == 'E'
  let whole := digits cs
  let afterWhole := cs.drop whole.length
  let fraction := if afterWhole.head? = some '.' then digits (afterWhole.drop 1) else []
  let exponentPart := (cs.dropWhile fun c => !isExponentMark c).drop 1
  let negative := exponentPart.head? = some '-'
  let exponent : Int := numeral 10 (exponentPart.dropWhile fun c => !c.isDigit)
  ⟨numeral 10 (whole ++ fraction),
    (if negative then -exponent else exponent) - (fraction.length : Int)⟩

/-- The value of a number as it is written, separators left out. -/
def numberValue (raw : List Char) : Binary64 :=
  match raw.filter (· != '_') with
  | '0' :: 'x' :: r | '0' :: 'X' :: r => .ofNat (numeral 16 r)
  | '0' :: 'o' :: r | '0' :: 'O' :: r => .ofNat (numeral 8 r)
  | '0' :: 'b' :: r | '0' :: 'B' :: r => .ofNat (numeral 2 r)
  | cs =>
    if cs.head? = some '0' ∧ 1 < cs.length ∧ cs.all isOctalDigit then .ofNat (numeral 8 cs)
    else .ofDecimal (decimalNumeral cs)

/-- The value of an integer as it is written, without the letter at its end. -/
def integerValue (raw : List Char) : Nat :=
  match raw.filter (· != '_') with
  | '0' :: 'x' :: r | '0' :: 'X' :: r => numeral 16 r.dropLast
  | '0' :: 'o' :: r | '0' :: 'O' :: r => numeral 8 r.dropLast
  | '0' :: 'b' :: r | '0' :: 'B' :: r => numeral 2 r.dropLast
  | cs => numeral 10 cs.dropLast

/-- A number without an exponent, in the fewest digits. -/
def numberText : Binary64 → String
  | .finite m e => (Binary64.shortest m e).positional
  | .infinite => "inf"

namespace Lexeme

/-- The token as complaints show it. -/
def description (l : Lexeme) : String :=
  let raw := String.ofList l.raw
  match l.token with
  | .finish => "<eof>"
  | .word name => name
  | .sign s => s.text
  | .string => "string literal (" ++ String.ofList l.value ++ ", " ++ raw ++ ")"
  | .number => "numeric literal (" ++ numberText (numberValue l.raw) ++ ", " ++ raw ++ ")"
  | .bigint => "bigint literal (" ++ toString (integerValue l.raw) ++ ", " ++ raw ++ ")"
  | .regex => "regexp literal"
  | .template _ => "template token (" ++ raw ++ ")"
  | .shebang => "#!"
  | .malformed => "<lexing error>"

end Lexeme

end WebModules.Script
