/-!
Domain names as they stand in a URL.  Labels of ASCII characters are written in lower case; any
other label is written by the name of its characters in ASCII, after the letters of the common
alphabets have been put into lower case.
-/

namespace WebModules.Url.Domain

/-- The characters of ASCII that no domain has. -/
def isForbidden (c : Char) : Bool :=
  c.toNat ≤ 32 || c.toNat == 127 || "%#/:<>?@[\\]^|".toList.contains c

/-- A letter in lower case, and the full forms of ASCII characters in their usual form. -/
def lowered (c : Char) : Char :=
  let n := c.toNat
  let shifted (d : Nat) : Char := Char.ofNat (n + d)
  if 0x41 ≤ n ∧ n ≤ 0x5a then shifted 32
  else if 0xff21 ≤ n ∧ n ≤ 0xff3a then Char.ofNat (n - 0xff21 + 0x61)
  else if 0xff01 ≤ n ∧ n ≤ 0xff5e then Char.ofNat (n - 0xff01 + 0x21)
  else if n = 0x3002 ∨ n = 0xff0e ∨ n = 0xff61 then '.'
  else if (0xc0 ≤ n ∧ n ≤ 0xde) ∧ n ≠ 0xd7 then shifted 32
  else if (0x100 ≤ n ∧ n ≤ 0x137 ∨ 0x14a ≤ n ∧ n ≤ 0x177) ∧ n % 2 = 0 ∧ n ≠ 0x130 then shifted 1
  else if (0x139 ≤ n ∧ n ≤ 0x148 ∨ 0x179 ≤ n ∧ n ≤ 0x17e) ∧ n % 2 = 1 then shifted 1
  else if n = 0x178 then Char.ofNat 0xff
  else if 0x391 ≤ n ∧ n ≤ 0x3a9 ∧ n ≠ 0x3a2 then shifted 32
  else if 0x410 ≤ n ∧ n ≤ 0x42f then shifted 32
  else if 0x400 ≤ n ∧ n ≤ 0x40f then shifted 80
  else c

/-- Characters that leave no trace in a domain name. -/
def isIgnored (c : Char) : Bool := [0xad, 0x200b, 0x2060, 0xfeff].contains c.toNat

/-- The digit of base 36 with the given value. -/
def digit (n : Nat) : Char := if n < 26 then Char.ofNat (n + 97) else Char.ofNat (n - 26 + 48)

/-- The bias after a difference was written, given how many characters were dealt with. -/
def adapt (delta count : Nat) (first : Bool) : Nat :=
  let rec shrink : Nat → Nat → Nat → Nat × Nat
    | 0, delta, k => (delta, k)
    | fuel + 1, delta, k => if 455 < delta then shrink fuel (delta / 35) (k + 36) else (delta, k)
  let delta := if first then delta / 700 else delta / 2
  let (delta, k) := shrink 64 (delta + delta / count) 0
  k + 36 * delta / (delta + 38)

/-- A difference in digits of a varying base. -/
def difference : Nat → Nat → Nat → Nat → List Char
  | 0, _, _, _ => []
  | fuel + 1, k, bias, q =>
    let t := if k ≤ bias then 1 else if bias + 26 ≤ k then 26 else k - bias
    if q < t then [digit q]
    else digit (t + (q - t) % (36 - t)) :: difference fuel (k + 36) bias ((q - t) / (36 - t))

/-- What remains to be known while the characters of a label are written. -/
structure Progress where
  delta : Nat
  bias : Nat
  count : Nat
  written : List Char

/-- Writes the places of the character numbered `n` among the characters of a label. -/
def writePlaces (basic n : Nat) (p : Progress) : List Char → Progress
  | [] => p
  | c :: r =>
    if c.toNat < n then writePlaces basic n { p with delta := p.delta + 1 } r
    else if c.toNat = n then
      writePlaces basic n
        ⟨0, adapt p.delta (p.count + 1) (p.count == basic), p.count + 1,
          p.written ++ difference 64 36 p.bias p.delta⟩ r
    else writePlaces basic n p r

/-- Writes the characters from `n` on, in the order of their numbers. -/
def writeFrom (label : List Char) (basic : Nat) : Nat → Nat → Progress → List Char
  | 0, _, p => p.written
  | fuel + 1, n, p =>
    match (label.filter fun c => n ≤ c.toNat).map Char.toNat |>.min? with
    | none => p.written
    | some next =>
      let p := { p with delta := p.delta + (next - n) * (p.count + 1) }
      let p := writePlaces basic next p label
      writeFrom label basic fuel (next + 1) { p with delta := p.delta + 1 }

def asciiLabel (label : List Char) : List Char :=
  let basic := label.filter fun c => c.toNat < 128
  if basic.length = label.length then label
  else
    let start := if basic.isEmpty then [] else basic ++ ['-']
    "xn--".toList
      ++ writeFrom label basic.length (label.length + 1) 128 ⟨0, 72, basic.length, start⟩

def labels (cs : List Char) : List (List Char) := cs.splitOn '.'

/-- A domain name as it stands in a URL, if it is one. -/
def ascii? (cs : List Char) : Option (List Char) :=
  let mapped := (cs.filter fun c => !isIgnored c).map lowered
  if mapped.any isForbidden then none
  else some ((labels mapped).map asciiLabel |> List.intercalate ['.'])

end WebModules.Url.Domain
