import WebModules.Script.Parse
import WebModules.Script.Span

/-!
The nodes of a module that matter to its dependencies: the module itself, its statements, its
expressions, and its import and export declarations.  `Outline` is the tree of these nodes; a walk
is the list of them in which each node comes after those within it and knows the number of the
node around it.
-/

namespace WebModules.Script

inductive NodeKind
  | module
  | statement
  | expression
  | importDeclaration (source : Literal) (typeOnly : Bool)
  | exportNamed (source : Option Literal) (typeOnly : Bool)
  | exportAll (source : Literal) (typeOnly : Bool)
  /-- Any other declaration that only a module can have. -/
  | moduleDeclaration
  /-- A call of `import`, with its first argument if that is a string. -/
  | importCall (argument : Option Literal)
  deriving DecidableEq, Repr, Inhabited

/-- A node with the outermost nodes within it. -/
inductive Outline
  | node (kind : NodeKind) (span : Span) (children : List Outline)
  deriving Repr, Inhabited

/-- A node of a walk.  `parent` is the number of the node around it. -/
structure Record where
  kind : NodeKind
  span : Span
  parent : Option Nat
  deriving DecidableEq, Repr, Inhabited

namespace Parsed

/-- The bytes that the tokens from `first` up to `stop` take. -/
def span (p : Parsed) (first stop : Nat) : Span :=
  match p.tokens[first]?, p.tokens[stop - 1]? with
  | some start, some last => ⟨start.start, last.stop⟩
  | _, _ => ⟨0, 0⟩

/-- Where an operand that should begin with the given token is missing: one byte before that token, or
before the end of the text's last token if there is none, but not before the operator. -/
def missingAt (p : Parsed) (number : Nat) : Nat :=
  let operator := (p.tokens[number - 1]?.map Lexeme.start).getD 0
  let next := match p.tokens[number]? with
    | some lexeme => lexeme.start
    | none => (p.tokens.back?.map Lexeme.stop).getD 0
  max operator (next - 1)

/-- The bytes that a node takes.  One that ends with a missing operand ends where that is. -/
def spanOf (p : Parsed) (t : Tree) : Span :=
  match t.missing? with
  | some number =>
    let stop := p.missingAt number
    ⟨if t.shape = .missing then stop else (p.span t.first t.stop).start, stop⟩
  | none => p.span t.first t.stop

/-- The string that the token with the given number is. -/
def literal (p : Parsed) (number : Nat) : Literal :=
  match p.tokens[number]? with
  | some lexeme => ⟨String.ofList lexeme.value, ⟨lexeme.start, lexeme.stop⟩⟩
  | none => ⟨"", ⟨0, 0⟩⟩

/-- What a node of a walk has to tell of a shape, for the shapes that make one. -/
def kind? (p : Parsed) : Shape → Option NodeKind
  | .module => some .module
  | .importDeclaration source typeOnly => some (.importDeclaration (p.literal source) typeOnly)
  | .exportNamed source typeOnly => some (.exportNamed (source.map p.literal) typeOnly)
  | .exportAll source typeOnly => some (.exportAll (p.literal source) typeOnly)
  | .moduleDeclaration => some .moduleDeclaration
  | .importCall argument => some (.importCall (argument.map p.literal))
  | .statement | .expressionStatement => some .statement
  | .variable _ | .privateName | .this | .string | .literal | .template | .taggedTemplate
  | .array | .object | .function | .classExpression | .arrow | .unary | .await | .update
  | .binary _ | .assignment _ | .conditional | .call | .new _ | .member | .superMember
  | .optionalMember | .optionalCall | .metaProperty | .sequence | .yield | .parenthesized
  | .asType | .asConst | .satisfiesType | .nonNull | .typeAssertion | .instantiation
  | .invalid | .missing => some .expression
  | .group | .hole | .pattern | .boundName _ | .arrayPattern | .objectPattern | .restPattern
  | .initializedPattern | .targetPattern | .invalidPattern | .assigned _ | .spread | .shorthand _ | .property
  | .methodProperty | .initializedProperty _ | .initializedShorthand _ | .name _ => none

mutual

/-- The outermost nodes of a tree. -/
def outlines (p : Parsed) : Tree → List Outline
  | .node shape first stop children =>
    let inner := p.outlinesOf children
    match p.kind? shape with
    | some kind => [.node kind (p.spanOf (.node shape first stop children)) inner]
    | none => inner

/-- The outermost nodes of several trees, in order. -/
def outlinesOf (p : Parsed) : List Tree → List Outline
  | [] => []
  | t :: ts => p.outlines t ++ p.outlinesOf ts

end

end Parsed

namespace Outline

mutual

def size : Outline → Nat
  | node _ _ children => sizeOfAll children + 1

def sizeOfAll : List Outline → Nat
  | [] => 0
  | o :: os => o.size + sizeOfAll os

end

mutual

/-- The nodes in the order of a walk, each after those within it.  The first of them has the number
`start`, and `parent` is the number of the node around the whole. -/
def recordsFrom (start : Nat) (parent : Option Nat) : Outline → List Record
  | node kind span children =>
    recordsOf start (some (start + sizeOfAll children)) children ++ [⟨kind, span, parent⟩]

/-- The nodes of several outlines in the order of a walk. -/
def recordsOf (start : Nat) (parent : Option Nat) : List Outline → List Record
  | [] => []
  | o :: os => o.recordsFrom start parent ++ recordsOf (start + o.size) parent os

end

def records (o : Outline) : List Record := o.recordsFrom 0 none

end Outline

/-- The outline of a module.  A module without tokens takes no bytes. -/
def Parsed.outline (origin : Nat) (p : Parsed) : Outline :=
  match p.tree with
  | .node _ _ _ items =>
    let span := match p.tokens[0]?, p.tokens.back? with
      | some first, some last => ⟨first.start, last.stop⟩
      | _, _ => ⟨origin, origin⟩
    .node .module span (p.outlinesOf items)

/-- The walk of the module that a text is. -/
def walk (text : String) : Except SyntaxError (List Record) := do
  let parsed ← parse text
  return (parsed.outline (withoutByteOrderMark text.toList).1).records

end WebModules.Script
