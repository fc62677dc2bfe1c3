import WebModules.Script.Walk

/-!
The dependencies of a module: the specifiers that its imports, exports with a source and calls of
`import` refer to, each with the place where it is written.
-/

namespace WebModules

open Script

inductive DependencyKind
  | staticImport
  | namedExport
  | exportAll
  | dynamicImport
  deriving DecidableEq, Repr, Inhabited

namespace DependencyKind

def text : DependencyKind → String
  | staticImport => "static-import"
  | namedExport => "named-export-from"
  | exportAll => "export-all-from"
  | dynamicImport => "dynamic-import"

end DependencyKind

/-- A specifier that a node of a module refers to. -/
structure Dependency where
  specifier : String
  kind : DependencyKind
  /-- The bytes of the whole node. -/
  span : Span
  /-- The bytes of the specifier with its quotes. -/
  literal : Span
  deriving DecidableEq, Repr, Inhabited

namespace Dependency

/-- What a node of a walk depends on.  Imports of types alone depend on nothing. -/
def ofRecord? (r : Record) : Option Dependency :=
  let made (kind : DependencyKind) (source : Literal) : Dependency :=
    ⟨source.value, kind, r.span, source.span⟩
  match r.kind with
  | .importDeclaration source false => some (made .staticImport source)
  | .exportNamed (some source) _ => some (made .namedExport source)
  | .exportAll source _ => some (made .exportAll source)
  | .importCall (some argument) => some (made .dynamicImport argument)
  | _ => none

def ofWalk (records : List Record) : List Dependency := records.filterMap ofRecord?

end Dependency

/-- The dependencies of the module that a text is, in the order of its walk. -/
def dependencies (text : String) : Except SyntaxError (List Dependency) := do
  return Dependency.ofWalk (← walk text)

/-- The specifiers that a module refers to, repeated as often as it does. -/
def detect (text : String) : Except SyntaxError (List String) := do
  return (← dependencies text).map Dependency.specifier

end WebModules
