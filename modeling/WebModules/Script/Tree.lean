/-!
Syntax trees.  A node says what it is, which tokens it covers (by their numbers, from `first` up to
but not including `stop`) and what it is made of, in the order in which a reader of the tree visits
the parts.  That order is the order of the text but for three cases: the test of a `do` loop comes
before its body, the body of a class before what it extends and implements, and the types at the
head of a function or arrow after its body.
-/

namespace WebModules.Script

/-- The operators that later steps tell apart. -/
inductive Operator
  | coalesce | logical | power | other
  deriving DecidableEq, Repr, Inhabited

/-- What a node is, as far as any later step asks. -/
inductive Shape
  -- parts that no reader meets as a node of its own
  | group
  | hole
  | pattern | boundName (name : String) | arrayPattern | objectPattern | restPattern
  | initializedPattern | targetPattern | invalidPattern
  /-- An expression that is assigned to.  A reader meets only its parts. -/
  | assigned (expression : Shape)
  | spread
  | shorthand (name : String) | property | methodProperty
  /-- A shorthand property with a default, in a pattern. -/
  | initializedProperty (name : String)
  /-- The same in an object expression, where only a reading as a pattern can make it right. -/
  | initializedShorthand (name : String)
  | name (name : String)
  -- expressions
  | variable (name : String) | privateName | this | string | literal | template
  | taggedTemplate | array | object | function | classExpression | arrow
  | unary | await | update | binary (operator : Operator) | assignment (plain : Bool)
  | conditional | call
  /-- A call of `import`; `literal` is the number of the string token that is its first
  argument. -/
  | importCall (literal : Option Nat)
  | new (arguments : Bool) | member | superMember
  | optionalMember | optionalCall | metaProperty | sequence | yield | parenthesized
  | asType | asConst | satisfiesType | nonNull | typeAssertion | instantiation | invalid
  /-- Stands for the operand of an operator that has none.  It takes no tokens. -/
  | missing
  -- statements
  | statement
  | expressionStatement
  -- module declarations
  | importDeclaration (source : Nat) (typeOnly : Bool)
  | exportNamed (source : Option Nat) (typeOnly : Bool)
  | exportAll (source : Nat) (typeOnly : Bool)
  | moduleDeclaration
  | module
  deriving DecidableEq, Repr, Inhabited

inductive Tree
  | node (shape : Shape) (first stop : Nat) (children : List Tree)
  deriving Repr, Inhabited

namespace Tree

def shape : Tree → Shape
  | node shape _ _ _ => shape

def first : Tree → Nat
  | node _ first _ _ => first

def stop : Tree → Nat
  | node _ _ stop _ => stop

def children : Tree → List Tree
  | node _ _ _ children => children

/-- The same parts under another shape. -/
def reshape (shape : Shape) : Tree → Tree
  | node _ first stop children => node shape first stop children

/-- The same parts as a statement that begins with token `first`. -/
def asStatementFrom (first : Nat) : Tree → Tree
  | node _ _ stop children => node .statement first stop children

/-- Parts without a node of their own around them. -/
def ofParts (children : List Tree) : Tree := node .group 0 0 children

/-- What stands where nothing stands. -/
def none : Tree := node .group 0 0 []

def isArrow (t : Tree) : Bool := t.shape == .arrow

def isBoundName (t : Tree) : Bool :=
  match t.shape with
  | .boundName _ => true
  | _ => false

/-- What the outermost parentheses hold. -/
def withoutParens : Tree → Tree
  | node .parenthesized _ _ [inner] => inner.withoutParens
  | t => t

/-- Whether the node is a link of an optional chain, assertions that it is not null aside. -/
def isOptionalChain : Tree → Bool
  | node .optionalMember _ _ _ => true
  | node .optionalCall _ _ _ => true
  | node .nonNull _ _ [inner] => inner.isOptionalChain
  | _ => false

/-- Whether strict code may assign to the expression. -/
def isAssignable : Tree → Bool
  | node (.variable name) _ _ _ => !(name == "eval" || name == "arguments")
  | node .member _ _ (object :: _) =>
    match object with
    | node .member _ _ _ => object.isAssignable
    | node .optionalMember _ _ _ => false
    | node .optionalCall _ _ _ => false
    | _ => true
  | node .superMember _ _ _ => true
  | node .parenthesized _ _ [inner] => inner.isAssignable
  | node .nonNull _ _ [inner] => inner.isAssignable
  | node .typeAssertion _ _ (inner :: _) => inner.isAssignable
  | node .asType _ _ (inner :: _) => inner.isAssignable
  | node .satisfiesType _ _ (inner :: _) => inner.isAssignable
  | node .instantiation _ _ (inner :: _) => inner.isAssignable
  | _ => false

/-- The number of the token that the missing operand at the end of an expression should begin with, if
the expression has the end of its last operand and that is missing. -/
def missing? : Tree → Option Nat
  | node .missing number _ _ => some number
  | node .unary _ _ [operand] => operand.missing?
  | node .update _ stop [operand] => if operand.stop = stop then operand.missing? else Option.none
  | node (.binary _) _ _ [_, right] => right.missing?
  | node .conditional _ _ [_, _, negative] => negative.missing?
  | _ => Option.none

mutual

/-- The tokens of a pattern that bind a name which strict code may not bind. -/
def unbindable : Tree → List Nat
  | node (.boundName name) first _ _ => if name == "eval" || name == "arguments" then [first] else []
  | node (.shorthand name) first _ _ => if name == "eval" || name == "arguments" then [first] else []
  | node (.initializedProperty name) first _ _ =>
    if name == "eval" || name == "arguments" then [first] else []
  | node .initializedPattern _ _ (target :: _) => target.unbindable
  | node .property _ _ [value] => value.unbindable
  | node .property _ _ [_, value] => value.unbindable
  | node .arrayPattern _ _ children => unbindableIn children
  | node .objectPattern _ _ children => unbindableIn children
  | node .restPattern _ _ children => unbindableIn children
  | _ => []

/-- The tokens of several patterns that bind a name which strict code may not bind. -/
def unbindableIn : List Tree → List Nat
  | [] => []
  | t :: ts => t.unbindable ++ unbindableIn ts

end

mutual

/-- The shorthand properties with a default that are left in an expression: only a pattern may
have them.  What stands in a function or arrow has been looked at by itself. -/
def initializedShorthands : Tree → List Nat
  | node (.initializedShorthand _) first _ children => first :: initializedShorthandsIn children
  | node .function _ _ _ => []
  | node .arrow _ _ _ => []
  | node _ _ _ children => initializedShorthandsIn children

/-- The shorthand properties with a default that are left in several expressions. -/
def initializedShorthandsIn : List Tree → List Nat
  | [] => []
  | t :: ts => t.initializedShorthands ++ initializedShorthandsIn ts

end

end Tree

end WebModules.Script
