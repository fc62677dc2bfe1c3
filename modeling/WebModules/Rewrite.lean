import WebModules.Dependency
import WebModules.Explanation
import WebModules.Schedule.Timed

/-!
Replacing the specifiers of a module.  Only what stands between the quotes of a specifier changes;
everything else of the text is kept as it is, the quotes included.
-/

namespace WebModules

open Script Schedule

/-- Why the specifiers of a module could not be replaced. -/
inductive RewriteError (ε : Type)
  | syntaxError (error : SyntaxError)
  /-- One dependency lies within another. -/
  | overlap (first second : Span)
  /-- No name could be found for a specifier. -/
  | unresolved (specifier : String) (error : ε)
  deriving DecidableEq, Repr, Inhabited

namespace RewriteError

def explain {ε : Type} (explainCause : ε → Explanation) : RewriteError ε → Explanation
  | syntaxError e => .causedBy ("cannot rewrite module: " ++ e.text) ⟨e.text, []⟩
  | overlap first second =>
    ⟨"dependency nodes overlap at " ++ toString first.start ++ ".." ++ toString first.stop
      ++ " and " ++ toString second.start ++ ".." ++ toString second.stop, []⟩
  | unresolved specifier e =>
    let cause := explainCause e
    .causedBy ("cannot resolve `" ++ specifier ++ "`: " ++ cause.message) cause

end RewriteError

namespace Rewrite

/-- A replacement of the bytes of a span. -/
structure Edit where
  span : Span
  text : List Char
  deriving DecidableEq, Repr, Inhabited

/-- The characters that start within the first `n` bytes, and the others. -/
def splitBytes : Nat → List Char → List Char × List Char
  | 0, cs => ([], cs)
  | _ + 1, [] => ([], [])
  | n + 1, c :: r =>
    let (taken, rest) := splitBytes (n + 1 - c.utf8Size) r
    (c :: taken, rest)

/-- The text with each edit made in its place.  The edits come in the order of their spans, which
do not overlap, and `pos` bytes precede the text. -/
def applyEdits (pos : Nat) (text : List Char) : List Edit → List Char
  | [] => text
  | edit :: edits =>
    let (gap, rest) := splitBytes (edit.span.start - pos) text
    let (_, rest) := splitBytes (edit.span.stop - edit.span.start) rest
    gap ++ edit.text ++ applyEdits edit.span.stop rest edits

/-- A name between quotes, where a quote or backslash within it is written after a backslash. -/
def quoted (quote : Char) (name : List Char) : List Char :=
  quote :: name.flatMap (fun c => if c = quote ∨ c = '\\' then ['\\', c] else [c]) ++ [quote]

def charAt (text : List Char) (pos : Nat) : Char := (splitBytes pos text).2.headD '"'

/-- The first two dependencies in a row of which the second starts before the first ends. -/
def firstOverlap? : List Dependency → Option (Span × Span)
  | a :: b :: r =>
    if b.span.start < a.span.stop then some (a.span, b.span) else firstOverlap? (b :: r)
  | _ => none

def inSourceOrder (ds : List Dependency) : List Dependency :=
  ds.mergeSort fun a b => a.span.start ≤ b.span.start

/-- The names of all dependencies, or the failure that is ready first. -/
def resolveAll {ε : Type} (resolve : String → Timed (Except ε String)) (ds : List Dependency) :
    Except (RewriteError ε) (List String) :=
  let answers := ds.map fun d => (resolve d.specifier).map fun answer => (d.specifier, answer)
  let failed? : String × Except ε String → Option (RewriteError ε)
    | (specifier, .error e) => some (.unresolved specifier e)
    | (_, .ok _) => none
  match firstReady? failed? answers with
  | some e => .error e
  | none => .ok (answers.filterMap fun a => a.value.2.toOption)

/-- The dependencies of a module whose walk is known, in the order in which they are replaced. -/
def plan {ε : Type} (records : List Record) : Except (RewriteError ε) (List Dependency) :=
  let ds := inSourceOrder (Dependency.ofWalk records)
  match firstOverlap? ds with
  | some (first, second) => .error (.overlap first second)
  | none => .ok ds

/-- The text in which each dependency has the name that stands in its place. -/
def fill (text : String) (ds : List Dependency) (names : List String) : String :=
  let edits := (ds.zip names).map fun (d, name) =>
    (⟨d.literal, quoted (charAt text.toList d.literal.start) name.toList⟩ : Edit)
  String.ofList (applyEdits 0 text.toList edits)

/-- Replaces the specifiers of a module whose walk is known. -/
def walked {ε : Type} (resolve : String → Timed (Except ε String)) (text : String)
    (records : List Record) : Except (RewriteError ε) String := do
  let ds ← plan records
  return fill text ds (← resolveAll resolve ds)

end Rewrite

/-- Replaces each specifier of a module by the name that `resolve` gives for it. -/
def rewrite {ε : Type} (resolve : String → Timed (Except ε String)) (text : String) :
    Except (RewriteError ε) String :=
  match walk text with
  | .error e => .error (.syntaxError e)
  | .ok records => Rewrite.walked resolve text records

/-- Replaces each specifier of a module by the name that `name` finds for it, which may change
something on the way and always finds one. -/
def rewriteFinding {σ : Type} (name : String → StateM σ String) (text : String) :
    StateM σ (Except (RewriteError Empty) String) := do
  match walk text with
  | .error e => return .error (.syntaxError e)
  | .ok records =>
    match Rewrite.plan records with
    | .error e => return .error e
    | .ok ds => return .ok (Rewrite.fill text ds (← ds.mapM fun d => name d.specifier))

end WebModules
