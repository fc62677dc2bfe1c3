/-!
Tables as they are built up from the lines of a document.  A table may be opened by a header once,
and keys with dots open tables of their own; what has been given a value cannot be opened.
-/

namespace WebModules.Toml

/-- A value of a document.  Of numbers with fractions, truth values, dates and times only their kind
is known. -/
inductive Value
  | text (value : String)
  | integer (value : Int)
  | scalar
  | dateTime
  | array (items : List Value)
  | table (entries : List (String × Value))
  deriving Repr, Inhabited

/-- How a table came to be. -/
inductive Opening
  /-- It has a header. -/
  | header
  /-- A header names a table in it. -/
  | implied
  /-- A key with dots names a value in it. -/
  | dotted
  deriving DecidableEq, Repr, Inhabited

/-- What a name stands for while a document is read. -/
inductive Node
  | value (v : Value)
  | table (opening : Opening) (entries : List (String × Node))
  /-- Tables with a common header each, the last one first. -/
  | tables (last : List (String × Node)) (others : List (List (String × Node)))
  deriving Inhabited

abbrev Entries := List (String × Node)

/-- The entries with the node of a name replaced by what `change` makes of it. -/
def alter (name : String) (change : Option Node → Option Node) : Entries → Option Entries
  | [] => do return [(name, ← change none)]
  | (other, node) :: entries =>
    if other = name then do return (name, ← change (some node)) :: entries
    else do return (other, node) :: (← alter name change entries)

/-- The entries with those of the table that names lead to changed.  A header may lead through any
table, and through the last of several tables. -/
def within (change : Entries → Option Entries) : List String → Entries → Option Entries
  | [], entries => change entries
  | name :: names, entries =>
    entries |> alter name fun
      | none => do return .table .implied (← within change names [])
      | some (.table opening inner) => do return .table opening (← within change names inner)
      | some (.tables last others) => do return .tables (← within change names last) others
      | some (.value _) => none

/-- Opens a table by its header.  It must not have been opened by another header or by a key. -/
def openTable (name : String) : Entries → Option Entries :=
  alter name fun
    | none => some (.table .header [])
    | some (.table .implied inner) => some (.table .header inner)
    | some _ => none

/-- Adds one more table to those with a common header. -/
def addTable (name : String) : Entries → Option Entries :=
  alter name fun
    | none => some (.tables [] [])
    | some (.tables last others) => some (.tables [] (last :: others))
    | some _ => none

/-- Gives a value to a name that has none. -/
def assign (name : String) (value : Value) : Entries → Option Entries :=
  alter name fun
    | none => some (.value value)
    | some _ => none

/-- Gives a value to a key with dots.  It may lead through tables without headers, and must end in one
that was opened by such a key. -/
def assignDotted (name : String) (value : Value) : List String → Entries → Option Entries
  | [], entries => assign name value entries
  | part :: parts, entries =>
    let mayEnd (opening : Opening) : Bool := !parts.isEmpty || opening == .dotted
    entries |> alter part fun
      | none => do return .table .dotted (← assignDotted name value parts [])
      | some (.table opening inner) =>
        if opening ≠ .header ∧ mayEnd opening then do
          return .table opening (← assignDotted name value parts inner)
        else none
      | some (.tables last others) =>
        if mayEnd .header then do return .tables (← assignDotted name value parts last) others
        else none
      | some (.value _) => none

mutual

/-- The value of what a name stands for. -/
def Node.toValue : Node → Value
  | .value v => v
  | .table _ entries => .table (entryValues entries)
  | .tables last others => .array ((.table (entryValues last) :: tableValues others).reverse)

def entryValues : List (String × Node) → List (String × Value)
  | [] => []
  | (name, node) :: entries => (name, node.toValue) :: entryValues entries

def tableValues : List (List (String × Node)) → List Value
  | [] => []
  | entries :: others => .table (entryValues entries) :: tableValues others

end

end WebModules.Toml
