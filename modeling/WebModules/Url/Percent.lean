/-!
Percent-encoding: bytes that may not stand for themselves in some part of a URL are written as a
percent sign and two hexadecimal digits.
-/

namespace WebModules.Url

/-- The parts of a URL that differ in what they leave unencoded. -/
inductive Part
  | opaquePath | fragment | path | userInfo | query | specialQuery
  deriving DecidableEq, Repr, Inhabited

/-- Whether an ASCII character is written in encoded form in some part of a URL. -/
def isEncodedIn (part : Part) (c : Char) : Bool :=
  c.toNat < 32 || c.toNat == 127 ||
    match part with
    | .opaquePath => false
    | .fragment => " \"<>`".toList.contains c
    | .path => " \"<>`#?\x7b\x7d".toList.contains c
    | .userInfo => " \"<>`#?\x7b\x7d/:;=@[\\]^|".toList.contains c
    | .query => " \"#<>".toList.contains c
    | .specialQuery => " \"#<>'".toList.contains c

def upperHexDigit (n : Nat) : Char := "0123456789ABCDEF".toList.getD n '0'

def encodedByte (b : UInt8) : List Char :=
  ['%', upperHexDigit (b.toNat / 16), upperHexDigit (b.toNat % 16)]

/-- A character as it is written in some part of a URL. -/
def encodedChar (part : Part) (c : Char) : List Char :=
  if c.toNat < 128 && !isEncodedIn part c then [c]
  else (String.utf8EncodeChar c).flatMap encodedByte

def percentEncode (part : Part) (cs : List Char) : List Char := cs.flatMap (encodedChar part)

def hexValue? (c : Char) : Option Nat :=
  if '0' ≤ c ∧ c ≤ '9' then some (c.toNat - '0'.toNat)
  else if 'a' ≤ c ∧ c ≤ 'f' then some (c.toNat - 'a'.toNat + 10)
  else if 'A' ≤ c ∧ c ≤ 'F' then some (c.toNat - 'A'.toNat + 10)
  else none

/-- The bytes that a text stands for. -/
def percentDecode : List Char → List UInt8
  | [] => []
  | '%' :: a :: b :: r =>
    match hexValue? a, hexValue? b with
    | some x, some y => UInt8.ofNat (x * 16 + y) :: percentDecode r
    | _, _ => String.utf8EncodeChar '%' ++ percentDecode (a :: b :: r)
  | c :: r => String.utf8EncodeChar c ++ percentDecode r

/-- The text that a percent-encoded one stands for, if that is text at all. -/
def percentDecoded? (cs : List Char) : Option (List Char) :=
  (String.fromUTF8? (ByteArray.mk (percentDecode cs).toArray)).map String.toList

end WebModules.Url
