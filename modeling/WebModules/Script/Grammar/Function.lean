import WebModules.Script.Grammar.Type

/-!
Functions: their parameters, results and bodies.
-/

namespace WebModules.Script.Clause

/-- The number of the string token that a statement consists of. -/
def directive? : Tree → Option Nat
  | .node .expressionStatement _ _ [.node .string number _ _] => some number
  | _ => none

/-- The first of the leading directives that asks for strict code. -/
def strictDirective? : List Tree → Clause (Option Nat)
  | [] => return none
  | statement :: others => do
    match directive? statement with
    | none => return none
    | some number =>
      if ← testString number .useStrict then return some statement.first
      else strictDirective? others

/-- A function with parameters that are no plain names may not ask for strict code. -/
def checkDirectives (simple : Bool) (block : Tree) : Clause Unit := do
  unless simple do
    reportAll .strictDirective (← strictDirective? block.children).toList

/-- The surroundings within the body of a function. -/
def inBody (kind : FunctionKind) (isArrow : Bool) (c : Context) : Context :=
  { c with
    async := kind.async, generator := kind.generator, inFunction := true
    hasNewTarget := c.hasNewTarget || !isArrow, breakAllowed := false, continueAllowed := false }

/-- The body of a function.  A function without one, which only a declaration of its type may be,
is a hole. -/
def body (kind : FunctionKind) (simple : Bool) : Clause Tree := do
  if (← context).ambient && (← isSign .openBrace) then report .here .bodyInDeclaration
  within (inBody kind false) (isolated do
    if !(← isSign .openBrace) && (← eatEnd) then return Tree.node .hole 0 0 []
    else
      let block ← withIn true (rule .block)
      checkDirectives simple block
      return block)

/-- The body of an arrow: a block or an expression. -/
def arrowBody (async simple : Bool) : Clause Tree := do
  if (← context).ambient && (← isSign .openBrace) then report .here .bodyInDeclaration
  within (inBody { async := async } true) (isolated do
    if ← isSign .openBrace then
      let block ← rule .block
      checkDirectives simple block
      return block
    else assignment)

/-- Whether a parameter only states the type of `this`. -/
def isThisParameter (parameter : Tree) : Bool := parameter.shape == .boundName "this"

def checkParameters (wanted : ParameterRule) (parameters : List Tree) : Clause Unit := do
  let count := (parameters.filter fun p => !isThisParameter p).length
  match wanted with
  | .any => return
  | .getter name => if count ≠ 0 then report (.token name) .getterParameter
  | .setter name =>
    if count ≠ 1 then report (.token name) .setterParameter
    if let some parameter := parameters.head? then
      if parameter.shape == .restPattern then report (.token parameter.first) .restInSetter

/-- A function from its type parameters on.  One without a body is a hole, and its parameters can
have no defaults. -/
def function (first : Nat) (kind : FunctionKind) (wanted : ParameterRule) : Clause Tree :=
  within (fun c => { c with async := kind.async, generator := kind.generator }) do
    let generics ← typeParameters?
    expect .openParen
    let parameters ← within (fun c => { c with inParameters := true, inFunction := false }) do
      let parameters ← rule .parameters
      checkParameters wanted parameters
      return parameters
    expect .closeParen
    let result ← result?
    let body ← rule (.body kind (areSimple parameters))
    let parts := parameters ++ [body] ++ generics ++ result
    if body.shape == .hole then
      reportAll .initializerWithoutBody
        ((parameters.filter fun p => p.shape == .initializedPattern).map Tree.first)
      node .hole first parts
    else node .group first parts

/-- A name where there may be none. -/
def boundName? (required : Bool) : Clause (List Tree) := do
  if required then return [← boundName]
  else if (← isName) || (← isWord "this") then return [← boundName]
  else return []

/-- A function from the word `function` on. -/
def namedFunction (async : Option Nat) (isExpression nameRequired : Bool) : Clause Tree := do
  let first ← match async with
    | some first => pure first
    | none => mark
  take
  let kind : FunctionKind := { async := async.isSome, generator := ← eat .times }
  let outside (c : Context) : Context := { c with classField := false }
  let name ← within (fun c =>
    if isExpression then
      { outside c with async := kind.async, generator := kind.generator } else outside c)
    (boundName? nameRequired)
  within (fun c => { outside c with colonExpected := false }) do
    let function ← rule (.function first kind .any)
    if isExpression && function.shape == .hole then unexpected "\x7b"
    node .function first (name ++ function.children)

end WebModules.Script.Clause
