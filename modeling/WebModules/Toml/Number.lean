import WebModules.Toml.Quoted

/-!
Numbers, dates and times.  Of all these only the values of integers matter; the others are checked
and not kept.
-/

namespace WebModules.Toml

def digit : Reader Char := Reader.satisfying Char.isDigit

/-- Digits that satisfy a test, with single underscores between them. -/
def digitsOf (test : Char → Bool) : Reader (List Char) := do
  let first ← Reader.satisfying test
  let rest ← Reader.many do
    let _ ← Reader.optional (Reader.char '_')
    Reader.satisfying test
  return first :: rest

def sign : Reader Bool :=
  (do Reader.char '-'; return true) <|> (do Reader.char '+'; return false) <|> return false

/-- The digits of a decimal number, which do not start with a zero unless they are one. -/
def decimalDigits : Reader (List Char) :=
  (do Reader.char '0'; return ['0']) <|> digitsOf Char.isDigit

def valueOf (base : Nat) (ds : List Char) : Nat := ds.foldl (fun n c => base * n + digitValue c) 0

/-- An integer with a base, which has no sign. -/
def basedInteger (mark : String) (base : Nat) (test : Char → Bool) : Reader Int := do
  Reader.chars mark
  let n := valueOf base (← digitsOf test)
  if n < Nat.pow 2 63 then return n else failure

def decimalInteger : Reader Int := do
  let negative ← sign
  let n := valueOf 10 (← decimalDigits)
  if negative then
    if n ≤ Nat.pow 2 63 then return -n else failure
  else if n < Nat.pow 2 63 then return n
  else failure

/-- An integer of 64 bits. -/
def integer : Reader Int :=
  basedInteger "0x" 16 isHexDigit
    <|> basedInteger "0o" 8 (fun c => '0' ≤ c && c ≤ '7')
    <|> basedInteger "0b" 2 (fun c => c == '0' || c == '1')
    <|> decimalInteger

/-- Whether `digits · 10 ^ exponent` is too large for a binary floating-point number of 64 bits. -/
def overflows (digits : Nat) (exponent : Int) : Bool :=
  let size : Int := (Nat.toDigits 10 digits).length + exponent
  let bound := Nat.pow 2 1024 - Nat.pow 2 970
  if digits = 0 ∨ size < 308 then false
  else if 310 < size then true
  else bound * Nat.pow 10 (-exponent).toNat ≤ digits * Nat.pow 10 exponent.toNat

def exponentPart : Reader Int := do
  Reader.char 'e' <|> Reader.char 'E'
  let negative ← sign
  let n := valueOf 10 (← digitsOf Char.isDigit)
  return if negative then -n else n

/-- A number with a fraction or an exponent.  It must not be too large. -/
def decimalFloat : Reader Unit := do
  let negative ← sign
  let whole ← decimalDigits
  let fraction ← Reader.optional do
    Reader.char '.'
    digitsOf Char.isDigit
  let exponent ← match fraction with
    | some _ => do pure ((← Reader.optional exponentPart).getD 0)
    | none => exponentPart
  let fraction := fraction.getD []
  if !negative && overflows (valueOf 10 (whole ++ fraction)) (exponent - fraction.length) then
    failure

def float : Reader Unit :=
  decimalFloat <|> do
    let _ ← sign
    Reader.chars "inf" <|> Reader.chars "nan"

/-! Dates and times -/

/-- A number of exactly so many digits between two bounds. -/
def numberWithin (count low high : Nat) : Reader Nat := do
  let rec digits : Nat → Reader (List Char)
    | 0 => return []
    | n + 1 => do return (← digit) :: (← digits n)
  let n := valueOf 10 (← digits count)
  if low ≤ n ∧ n ≤ high then return n else failure

def daysIn (year month : Nat) : Nat :=
  let leap := year % 4 = 0 ∧ (year % 100 ≠ 0 ∨ year % 400 = 0)
  if month = 2 then if leap then 29 else 28
  else if month = 4 ∨ month = 6 ∨ month = 9 ∨ month = 11 then 30
  else 31

def date : Reader Unit := do
  let year ← numberWithin 4 0 9999
  Reader.char '-'
  let month ← numberWithin 2 1 12
  Reader.char '-'
  let _ ← numberWithin 2 1 (daysIn year month)

def time : Reader Unit := do
  let _ ← numberWithin 2 0 23
  Reader.char ':'
  let _ ← numberWithin 2 0 59
  Reader.char ':'
  let _ ← numberWithin 2 0 60
  let _ ← Reader.optional do
    Reader.char '.'
    let _ ← digit
    let _ ← Reader.many digit

def offset : Reader Unit :=
  Reader.char 'Z' <|> Reader.char 'z' <|> do
    Reader.char '+' <|> Reader.char '-'
    let _ ← numberWithin 2 0 23
    Reader.char ':'
    let _ ← numberWithin 2 0 59

/-- A date, a time, or both. -/
def dateTime : Reader Unit :=
  (do
    date
    let _ ← Reader.optional do
      Reader.char 'T' <|> Reader.char 't' <|> Reader.char ' '
      time
      let _ ← Reader.optional offset)
  <|> time

end WebModules.Toml
