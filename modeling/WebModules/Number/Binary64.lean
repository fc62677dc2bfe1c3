/-!
Binary floating-point numbers with 53 bits of precision, as the integers they are made of.
`ofDecimal` rounds a decimal number to the nearest of them, ties to the even one; `shortest` finds
the fewest decimal digits that round back to a number, and among these the nearest to it.
-/

namespace WebModules.Number

/-- The magnitude `mantissa * 2 ^ exponent`, or infinity. -/
inductive Binary64
  | finite (mantissa : Nat) (exponent : Int)
  | infinite
  deriving DecidableEq, Repr, Inhabited

/-- The decimal number `digits * 10 ^ exponent`. -/
structure Decimal where
  digits : Nat
  exponent : Int
  deriving DecidableEq, Repr, Inhabited

namespace Binary64

/-- The least exponent of a number: below it precision is lost instead. -/
def minExponent : Int := -1074

/-- The greatest exponent of a number with a full mantissa. -/
def maxExponent : Int := 971

/-- `num / den` rounded to the nearest integer, a half to the even one. -/
def roundHalfEven (num den : Nat) : Nat :=
  let q := num / den
  let twice := 2 * (num % den)
  if twice < den then q else if den < twice then q + 1 else if q % 2 = 0 then q else q + 1

/-- The number nearest to `num / den`. -/
def ofRatio (num den : Nat) : Binary64 :=
  if num = 0 then .finite 0 minExponent
  else
    let guess : Int := (Nat.log2 num : Int) - (Nat.log2 den : Int) - 52
    let scaled (e : Int) : Nat × Nat :=
      if 0 ≤ e then (num, den * Nat.pow 2 e.toNat) else (num * Nat.pow 2 (-e).toNat, den)
    let low := scaled guess
    let exponent := if low.1 / low.2 < Nat.pow 2 52 then guess - 1 else guess
    let exponent := max exponent minExponent
    let (n, d) := scaled exponent
    let m := roundHalfEven n d
    let (m, exponent) := if m = Nat.pow 2 53 then (Nat.pow 2 52, exponent + 1) else (m, exponent)
    if maxExponent < exponent then .infinite else .finite m exponent

/-- The number nearest to a decimal number.  Decimal numbers far out of range are not computed. -/
def ofDecimal (d : Decimal) : Binary64 :=
  let size : Int := (Nat.log2 d.digits : Int) * 301 / 1000
  if d.digits = 0 then .finite 0 minExponent
  else if 320 < d.exponent + size then .infinite
  else if d.exponent + size < -400 then .finite 0 minExponent
  else if 0 ≤ d.exponent then ofRatio (d.digits * Nat.pow 10 d.exponent.toNat) 1
  else ofRatio d.digits (Nat.pow 10 (-d.exponent).toNat)

def ofNat (n : Nat) : Binary64 := ofRatio n 1

/-- The value as a fraction. -/
def ratio (m : Nat) (e : Int) : Nat × Nat :=
  if 0 ≤ e then (m * Nat.pow 2 e.toNat, 1) else (m, Nat.pow 2 (-e).toNat)

/-- A product, rounded to the nearest number. -/
def mul : Binary64 → Binary64 → Binary64
  | finite m e, finite n f =>
    let (num, den) := ratio (m * n) (e + f)
    ofRatio num den
  | _, _ => .infinite

/-- A quotient, rounded to the nearest number.  Nothing is divided by zero here. -/
def div : Binary64 → Binary64 → Binary64
  | finite m e, finite n f =>
    let (num, den) := ratio m e
    let (num', den') := ratio n f
    ofRatio (num * den') (den * num')
  | .infinite, _ => .infinite
  | finite _ _, .infinite => .finite 0 minExponent

def isZero : Binary64 → Bool
  | finite m _ => m == 0
  | infinite => false

/-- The decimal exponent of the first digit of `num / den`, found from an estimate that may be one
too high. -/
def leadingExponent (num den : Nat) : Int :=
  let bits : Int := (Nat.log2 num : Int) - (Nat.log2 den : Int)
  let guess := bits * 30103 / 100000 + 1
  let below (e : Int) : Bool :=
    if 0 ≤ e then num < den * Nat.pow 10 e.toNat else num * Nat.pow 10 (-e).toNat < den
  if below guess then if below (guess - 1) then guess - 2 else guess - 1 else guess

/-- The two neighbours of `num / den` among the multiples of `10 ^ e`, the nearer one first. -/
def neighbours (num den : Nat) (e : Int) : List Nat :=
  let (n, d) := if 0 ≤ e then (num, den * Nat.pow 10 e.toNat) else (num * Nat.pow 10 (-e).toNat, den)
  let q := n / d
  let twice := 2 * (n % d)
  if twice < d then [q, q + 1]
  else if d < twice then [q + 1, q]
  else if q % 2 = 0 then [q, q + 1] else [q + 1, q]

/-- Tries one digit count after the other. -/
def shortestFrom (x : Binary64) (num den : Nat) (lead : Int) : Nat → Nat → Decimal
  | 0, count =>
    let e := lead - count
    ⟨(neighbours num den e).headD 0, e⟩
  | fuel + 1, count =>
    let e := lead - count
    match (neighbours num den e).find? fun n => n ≠ 0 ∧ ofDecimal ⟨n, e⟩ = x with
    | some n => ⟨n, e⟩
    | none => shortestFrom x num den lead fuel (count + 1)

/-- Moves trailing zeros of the digits into the exponent. -/
def trimZeros : Nat → Decimal → Decimal
  | 0, d => d
  | fuel + 1, d =>
    if d.digits ≠ 0 ∧ d.digits % 10 = 0 then trimZeros fuel ⟨d.digits / 10, d.exponent + 1⟩ else d

/-- The shortest decimal number that rounds to the finite number `m * 2 ^ e`. -/
def shortest (m : Nat) (e : Int) : Decimal :=
  if m = 0 then ⟨0, 0⟩
  else
    let (num, den) := ratio m e
    trimZeros 20 (shortestFrom (.finite m e) num den (leadingExponent num den) 17 0)

end Binary64

namespace Decimal

/-- The digits without an exponent, with as many zeros before or after them as the value needs. -/
def positional (d : Decimal) : String :=
  if 0 ≤ d.exponent then toString d.digits ++ String.ofList (List.replicate d.exponent.toNat '0')
  else
    let places := (-d.exponent).toNat
    let cs := Nat.toDigits 10 d.digits
    let cs := List.replicate (places + 1 - cs.length) '0' ++ cs
    String.ofList (cs.take (cs.length - places)) ++ "." ++ String.ofList (cs.drop (cs.length - places))

end Decimal

end WebModules.Number
