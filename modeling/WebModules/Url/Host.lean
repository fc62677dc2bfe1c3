import WebModules.Url.Domain
import WebModules.Url.Percent

/-!
Hosts: domain names, and internet addresses of both versions in their shortest form.
-/

namespace WebModules.Url

/-- Why a text is no URL. -/
inductive UrlError
  | emptyHost | invalidDomain | invalidPort | invalidIpv4 | invalidIpv6 | invalidDomainCharacter
  | noBase | opaqueBase
  deriving DecidableEq, Repr, Inhabited

def UrlError.message : UrlError → String
  | emptyHost => "empty host"
  | invalidDomain => "invalid international domain name"
  | invalidPort => "invalid port number"
  | invalidIpv4 => "invalid IPv4 address"
  | invalidIpv6 => "invalid IPv6 address"
  | invalidDomainCharacter => "invalid domain character"
  | noBase => "relative URL without a base"
  | opaqueBase => "relative URL with a cannot-be-a-base base"

namespace Host

/-- The number that digits of base `radix` stand for. -/
def number? (radix : Nat) (cs : List Char) : Option Nat :=
  cs.foldl (fun n c => do
    let n ← n
    let d ← hexValue? c
    if d < radix then some (n * radix + d) else none) (some 0)

/-- A part of an address of four parts: decimal, or octal or hexadecimal by its first characters. -/
def ipv4Part? : List Char → Option Nat
  | [] => none
  | '0' :: 'x' :: r | '0' :: 'X' :: r => number? 16 r
  | '0' :: c :: r => number? 8 (c :: r)
  | cs => number? 10 cs

/-- The parts of a host between its dots, without an empty one at the end. -/
def parts (cs : List Char) : List (List Char) :=
  let all := cs.splitOn '.'
  if all.getLast? = some [] then all.dropLast else all

/-- Whether a host is meant as an address: its last part is a number. -/
def isNumeric (cs : List Char) : Bool :=
  match (parts cs).getLast? with
  | some last => (!last.isEmpty && last.all Char.isDigit) || (ipv4Part? last).isSome
  | none => false

/-- The number of an address of up to four parts, of which the last one fills what the others leave
of four bytes. -/
def ipv4Number? (cs : List Char) : Option Nat := do
  let numbers ← (parts cs).mapM ipv4Part?
  let last ← numbers.getLast?
  let leading := numbers.dropLast
  if 3 < leading.length ∨ leading.any (fun n => 255 < n) then none
  else if Nat.pow 256 (4 - leading.length) ≤ last then none
  else
    let (sum, _) := leading.foldl (fun (sum, place) n => (sum + n * Nat.pow 256 place, place - 1))
      (0, 3)
    return sum + last

def ipv4Text (n : Nat) : List Char :=
  let byte (place : Nat) : List Char := Nat.toDigits 10 (n / Nat.pow 256 place % 256)
  List.intercalate ['.'] [byte 3, byte 2, byte 1, byte 0]

/-- The two last pieces of an address of version 6 that ends in one of version 4, each part of
which is a decimal number up to 255 without leading zeros. -/
def embeddedIpv4? (cs : List Char) : Option (List Nat) := do
  let numbers ← (cs.splitOn '.').mapM fun part =>
    if part.isEmpty ∨ !part.all Char.isDigit ∨ (part.head? = some '0' ∧ 1 < part.length) then none
    else do
      let n ← number? 10 part
      if 255 < n then none else some n
  match numbers with
  | [a, b, c, d] => some [a * 256 + b, c * 256 + d]
  | _ => none

/-- The pieces between the colons of a part of an address. -/
def ipv6Pieces? (last : Bool) (cs : List Char) : Option (List Nat) :=
  if cs.isEmpty then some []
  else
    let pieces := cs.splitOn ':'
    let piece (p : List Char) : Option (List Nat) :=
      if p.isEmpty ∨ 4 < p.length then none else (number? 16 p).map fun n => [n]
    let rec collect : List (List Char) → Option (List Nat)
      | [] => some []
      | [p] => if last && p.contains '.' then embeddedIpv4? p else piece p
      | p :: ps => do return (← piece p) ++ (← collect ps)
    collect pieces

/-- Splits a text at the first double colon. -/
def splitDoubleColon : List Char → Option (List Char × List Char)
  | ':' :: ':' :: r => some ([], r)
  | c :: r => (splitDoubleColon r).map fun (before, after) => (c :: before, after)
  | [] => none

/-- The eight pieces of an address of version 6. -/
def ipv6Pieces8? (cs : List Char) : Option (List Nat) := do
  match splitDoubleColon cs with
  | some (before, after) =>
    let front ← ipv6Pieces? false before
    let back ← ipv6Pieces? true after
    if front.length + back.length < 8 then
      return front ++ List.replicate (8 - front.length - back.length) 0 ++ back
    else none
  | none =>
    let pieces ← ipv6Pieces? true cs
    if pieces.length = 8 then some pieces else none

/-- The length of the run of zeros at the start of a list. -/
def zeroRun (ns : List Nat) : Nat := (ns.takeWhile (· == 0)).length

/-- The place and length of the first of the longest runs of zeros. -/
def longestRun (place : Nat) (best : Nat × Nat) : List Nat → Nat × Nat
  | [] => best
  | n :: ns =>
    let run := zeroRun (n :: ns)
    longestRun (place + 1) (if best.2 < run then (place, run) else best) ns

def ipv6Text (pieces : List Nat) : List Char :=
  let hex (ns : List Nat) : List Char := List.intercalate [':'] (ns.map (Nat.toDigits 16))
  let (place, run) := longestRun 0 (0, 0) pieces
  if run < 2 then hex pieces
  else hex (pieces.take place) ++ [':', ':'] ++ hex (pieces.drop (place + run))

def ipv6? (cs : List Char) : Except UrlError (List Char) :=
  match ipv6Pieces8? cs with
  | some pieces => .ok ('[' :: ipv6Text pieces ++ [']'])
  | none => .error .invalidIpv6

def bracketed (cs : List Char) : Except UrlError (List Char) :=
  if cs.getLast? = some ']' then ipv6? (cs.drop 1).dropLast else .error .invalidIpv6

/-- A host of a special scheme as it stands in a URL. -/
def parse (cs : List Char) : Except UrlError (List Char) :=
  if cs.head? = some '[' then bracketed cs
  else
    match (percentDecoded? cs).bind Domain.ascii? with
    | none => .error .invalidDomain
    | some [] => .error .emptyHost
    | some domain =>
      if isNumeric domain then
        match ipv4Number? domain with
        | some n => .ok (ipv4Text n)
        | none => .error .invalidIpv4
      else .ok domain

/-- A host of any other scheme. -/
def parseOpaque (cs : List Char) : Except UrlError (List Char) :=
  if cs.head? = some '[' then bracketed cs
  else if cs.any fun c => "\x00\t\n\r #/:<>?@[\\]^|".toList.contains c then
    .error .invalidDomainCharacter
  else .ok (percentEncode .opaquePath cs)

end Host

end WebModules.Url
