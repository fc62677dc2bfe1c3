import WebModules.Text

/-!
Semantic versions and their order.
-/

namespace WebModules

structure Version where
  major : Nat
  minor : Nat
  patch : Nat
  /-- The identifiers after the hyphen; there are none in a release. -/
  prerelease : List (List Char)
  /-- The identifiers after the plus sign. -/
  build : List (List Char)
  deriving DecidableEq, Repr, Inhabited

namespace Version

def isIdentifierChar (c : Char) : Bool := c.isAlphanum || c == '-'

def isNumeric (cs : List Char) : Bool := cs.all Char.isDigit

def hasLeadingZero (cs : List Char) : Bool := cs.head? == some '0' && 1 < cs.length

def numeral (cs : List Char) : Nat := cs.foldl (fun n c => n * 10 + (c.toNat - '0'.toNat)) 0

/-- A number of a version: no leading zeros, and at most 64 bits. -/
def number? (cs : List Char) : Option Nat :=
  if cs.isEmpty ∨ !isNumeric cs ∨ hasLeadingZero cs then none
  else
    let n := numeral cs
    if n < Nat.pow 2 64 then some n else none

/-- Identifiers separated by dots.  `zeros` allows leading zeros in numbers. -/
def identifiers? (zeros : Bool) (cs : List Char) : Option (List (List Char)) :=
  let parts := Text.split '.' cs
  if parts.all fun part =>
      !part.isEmpty && part.all isIdentifierChar
        && (zeros || !(isNumeric part && hasLeadingZero part)) then
    some parts
  else none

def parse? (text : String) : Option Version := do
  let (front, build) ← match Text.splitFirst? '+' text.toList with
    | some (front, build) => do pure (front, ← identifiers? true build)
    | none => pure (text.toList, [])
  let (core, prerelease) ← match Text.splitFirst? '-' front with
    | some (core, prerelease) => do pure (core, ← identifiers? false prerelease)
    | none => pure (front, [])
  match Text.split '.' core with
  | [major, minor, patch] =>
    return ⟨← number? major, ← number? minor, ← number? patch, prerelease, build⟩
  | _ => none

/-- Texts in the order of their characters. -/
def compareChars (a b : List Char) : Ordering :=
  compare (String.ofList a) (String.ofList b)

/-- Identifiers of a prerelease: numbers come first and are compared by their values. -/
def comparePrereleaseIdentifiers (a b : List Char) : Ordering :=
  match isNumeric a, isNumeric b with
  | true, true => (compare a.length b.length).then (compareChars a b)
  | true, false => .lt
  | false, true => .gt
  | false, false => compareChars a b

/-- Identifiers of a build: numbers come first and are compared by their values, then by the number
of their leading zeros. -/
def compareBuildIdentifiers (a b : List Char) : Ordering :=
  match isNumeric a, isNumeric b with
  | true, true =>
    let a' := a.dropWhile (· == '0')
    let b' := b.dropWhile (· == '0')
    (compare a'.length b'.length).then ((compareChars a' b').then (compare a.length b.length))
  | true, false => .lt
  | false, true => .gt
  | false, false => compareChars a b

/-- Lists in the order of their first different items; a list comes before those that go on. -/
def compareLists (cmp : List Char → List Char → Ordering) :
    List (List Char) → List (List Char) → Ordering
  | [], [] => .eq
  | [], _ :: _ => .lt
  | _ :: _, [] => .gt
  | a :: as, b :: bs => (cmp a b).then (compareLists cmp as bs)

/-- A release comes after its prereleases. -/
def comparePrereleases : List (List Char) → List (List Char) → Ordering
  | [], [] => .eq
  | [], _ :: _ => .gt
  | _ :: _, [] => .lt
  | as, bs => compareLists comparePrereleaseIdentifiers as bs

/-- The order of versions.  Versions that differ in their builds alone are in the order of these. -/
def order (v w : Version) : Ordering :=
  (compare v.major w.major).then <| (compare v.minor w.minor).then <|
    (compare v.patch w.patch).then <| (comparePrereleases v.prerelease w.prerelease).then <|
      compareLists compareBuildIdentifiers v.build w.build

end Version

end WebModules
