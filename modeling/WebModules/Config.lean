import WebModules.Registry.Basic
import WebModules.Toml.Document

/-!
The settings of a user: which registries are tried and where they are, where packages are installed,
and how long a request may take.
-/

namespace WebModules

open Toml

structure Config where
  /-- The names of the registries to be tried. -/
  order : Option (List String)
  /-- The base URLs of registries by their names. -/
  bases : List (String × String)
  outputDir : Option String
  /-- The seconds that a request may take; zero stands for any number. -/
  timeout : Option Nat
  deriving DecidableEq, Repr, Inhabited

namespace Config

def unset : Config := ⟨none, [], none, none⟩

/-! Reading -/

/-- The only field of a group of settings, if the group has it.  A group is a table, or an array with
the values of its fields.  A date stands for a group without fields. -/
def fieldOf? (name : String) : Value → Option (Option Value)
  | .table entries => some (entries.lookup name)
  | .array (v :: _) => some (some v)
  | .dateTime => some none
  | _ => none

def textOf? : Value → Option String
  | .text s => some s
  | _ => none

def textsOf? : Value → Option (List String)
  | .array items => items.mapM textOf?
  | _ => none

def naturalOf? : Value → Option Nat
  | .integer n => if 0 ≤ n then some n.toNat else none
  | _ => none

/-- A setting that is the only one of its group.  Neither the group nor the setting needs to be
there, but they must be what they should if they are. -/
def setting? {α : Type} (group name : String) (read? : Value → Option α)
    (entries : List (String × Value)) : Option (Option α) := do
  match entries.lookup group with
  | none => return none
  | some v =>
    match ← fieldOf? name v with
    | none => return none
    | some v => return some (← read? v)

/-- The group of the timeout may also be an empty array. -/
def timeout? (entries : List (String × Value)) : Option (Option Nat) :=
  match entries.lookup "http" with
  | some (.array []) => some none
  | _ => setting? "http" "timeout-secs" naturalOf? entries

/-- The base URL of a registry, which must be there if the registry is named. -/
def baseOf? (entry : String × Value) : Option (String × String) := do
  return (entry.1, ← textOf? (← ← fieldOf? "base" entry.2))

def bases? (entries : List (String × Value)) : Option (List (String × String)) :=
  match entries.lookup "registries" with
  | none => some []
  | some (.table registries) => registries.mapM baseOf?
  | some _ => none

def ofEntries? (entries : List (String × Value)) : Option Config := do
  return ⟨← setting? "registry" "order" textsOf? entries, ← bases? entries,
    ← setting? "output" "dir" textOf? entries, ← timeout? entries⟩

/-- Reads settings.  A text that does not hold settings sets nothing. -/
def parse (text : String) : Config := ((Toml.parse? text).bind ofEntries?).getD unset

/-! Meaning -/

/-- Backends in the order in which they are first named.  Names of no backend are passed over. -/
def namedBackends (names : List String) : List Backend :=
  (names.filterMap Backend.ofName?).foldl
    (fun backends b => if backends.contains b then backends else backends ++ [b]) []

def backends (c : Config) : List Backend :=
  match c.order with
  | some names => namedBackends names
  | none => Backend.all

def base (c : Config) (b : Backend) : String := (c.bases.lookup b.name).getD b.defaultBase

def outputDirectory (c : Config) : String := c.outputDir.getD "web_modules"

/-- The seconds that a request may take, if there is a limit. -/
def timeLimit (c : Config) : Option Nat :=
  let seconds := c.timeout.getD 30
  if seconds = 0 then none else some seconds

/-- The registries of backends, with numbers from a first one on. -/
def registriesFrom (c : Config) : Nat → List Backend → Except RegistryError (List Registry)
  | _, [] => .ok []
  | number, b :: bs => do
    let r ← Registry.ofBase number b (c.base b)
    return r :: (← registriesFrom c (number + 1) bs)

/-- The registries to be tried: that of one backend alone if it is named, and else all. -/
def registries (c : Config) (only : Option Backend) : Except RegistryError (List Registry) :=
  c.registriesFrom 0 (match only with
    | some b => [b]
    | none => c.backends)

end Config

end WebModules
