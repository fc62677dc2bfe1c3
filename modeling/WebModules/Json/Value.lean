import WebModules.Number.Binary64

/-!
JSON documents.  The fields of an object keep their order.
-/

namespace WebModules

open Number

/-- A number of a document: an integer of 64 bits, or a binary floating-point number given by its
sign and magnitude. -/
inductive Json.Number
  | integer (value : Int)
  | real (negative : Bool) (magnitude : Binary64)
  deriving DecidableEq, Repr, Inhabited

inductive Json
  | null
  | bool (value : Bool)
  | number (value : Json.Number)
  | string (value : String)
  | array (items : List Json)
  | object (fields : List (String × Json))
  deriving Repr, Inhabited

namespace Json

/-- The fields of an object with one of them set: in its place if there is one of that name, else
at the end. -/
def setField {α : Type} (name : String) (value : α) : List (String × α) → List (String × α)
  | [] => [(name, value)]
  | (other, old) :: fields =>
    if other = name then (name, value) :: fields else (other, old) :: setField name value fields

def field? {α : Type} (name : String) : List (String × α) → Option α
  | [] => none
  | (other, value) :: fields => if other = name then some value else field? name fields

/-- Fields of which no two have the same name: the last value of each name, in the first place that
the name had. -/
def distinctFields {α : Type} (fields : List (String × α)) : List (String × α) :=
  fields.foldl (fun found f => setField f.1 f.2 found) []

def isObject : Json → Bool
  | object _ => true
  | _ => false

def isArray : Json → Bool
  | array _ => true
  | _ => false

def get? (name : String) : Json → Option Json
  | object fields => field? name fields
  | _ => none

def asString? : Json → Option String
  | string s => some s
  | _ => none

def isContainer (j : Json) : Bool := j.isObject || j.isArray

mutual

/-- The document `target` with `source` merged into it.  Fields are merged one by one where both have an
object, arrays are appended, and everything else is replaced. -/
def merge (target : Json) : Json → Json
  | object fields =>
    match target with
    | object targetFields => object (mergeFields targetFields fields)
    | _ => object fields
  | array items =>
    match target with
    | array targetItems => array (targetItems ++ items)
    | _ => array items
  | source => source

/-- The fields of an object with others merged into them.  A field that holds neither an object nor
an array is replaced. -/
def mergeFields (target : List (String × Json)) : List (String × Json) → List (String × Json)
  | [] => target
  | (name, value) :: fields =>
    match field? name target with
    | some old =>
      let merged := if old.isContainer then merge old value else value
      mergeFields (setField name merged target) fields
    | none => mergeFields (setField name value target) fields

end

end Json

end WebModules
