import WebModules.Script.Grammar.Name

/-!
Patterns: what a declaration binds, the parameters of a function, and the reading of an expression
as the target of an assignment.
-/

namespace WebModules.Script.Clause

/-- A value after an equals sign makes a target a target with a default. -/
def initialized (first : Nat) (target : Tree) : Clause Tree := do
  if ← eat .assign then
    let value ← withIn true assignment
    if (← context).ambient then report (.token first) .initializerWithoutBody
    node .initializedPattern first [target, value]
  else return target

def bindingElement : Clause Tree := do
  let first ← mark
  initialized first (← rule .bindingTarget)

/-- In a declaration without implementation a pattern may be marked as optional. -/
def eatOptionalMark : Clause Unit := do
  if (← context).ambient then
    let _ ← eat .question

/-- The elements of an array pattern, up to its closing bracket.  `rest` is the token that began a
rest element already read. -/
def arrayElements : Clause (List Tree) := do
  let found ← repeating (fun (state : List Tree × Option Nat) => do
    let (found, rest) := state
    if (← isFinish) || (← isSign .closeBracket) then return .inr found
    else if ← eat .comma then return .inl (Tree.node .hole 0 0 [] :: found, rest)
    else
      reportAll .restElementNotLast rest.toList
      let first ← mark
      let (element, rest) ← if ← eat .ellipsis then do
          let target ← rule .bindingTarget
          pure (← node .restPattern first [target], some first)
        else do pure (← bindingElement, rest)
      unless ← isSign .closeBracket do
        let comma ← mark
        expect .comma
        if rest.isSome && (← isSign .closeBracket) then report (.token comma) .commaAfterRest
      return .inl (element :: found, rest)) ([], none)
  return found.reverse

def arrayBinding : Clause Tree := do
  let first ← mark
  take
  let elements ← arrayElements
  expect .closeBracket
  eatOptionalMark
  node .arrayPattern first elements

/-- A property of an object pattern. -/
def propertyBinding : Clause Tree := do
  let first ← mark
  if ← eat .ellipsis then
    let target ← rule .bindingTarget
    node .restPattern first [target]
  else
    let key ← propertyKey
    if ← eat .colon then
      let value ← bindingElement
      node .property first (key.parts ++ [value])
    else
      match key with
      | .word name =>
        if ← eat .assign then
          let value ← withIn true assignment
          node (.initializedProperty name) first [value]
        else
          if isReserved name then report (.token first) .reservedShorthand
          node (.shorthand name) first []
      | _ => unexpected "an identifier"

/-- The comma-separated properties up to a closing brace, and the comma before it if there is
one. -/
def properties (property : Clause Tree) : Clause (List Tree × Option Nat) := do
  let (found, comma) ← repeating (fun (state : List Tree × Option Nat) => do
    let (found, comma) := state
    if ← eat .closeBrace then return .inr (found, comma)
    else
      let property ← property
      if ← isSign .closeBrace then return .inl (property :: found, none)
      else
        let comma ← mark
        expect .comma
        if ← isSign .closeBrace then return .inl (property :: found, some comma)
        else return .inl (property :: found, none)) ([], none)
  return (found.reverse, comma)

/-- Complains about rest properties that are not last, or bind more than one name. -/
def checkRestProperties (comma : Option Nat) : List Tree → Clause Unit
  | [] => return
  | [.node .restPattern first _ [target]] => do
    if target.isBoundName then reportAll .commaAfterRest comma.toList
    else fail (.token first) .restWithoutName
  | property :: rest => do
    if property.shape == .restPattern && !rest.isEmpty then
      report (.token property.first) .restElementNotLast
    checkRestProperties comma rest

def objectBinding : Clause Tree := do
  let first ← mark
  take
  let (found, comma) ← within (fun c => { c with colonExpected := false })
    (properties propertyBinding)
  let stop ← mark
  checkRestProperties comma found
  eatOptionalMark
  return .node .objectPattern first stop found

/-- What a declaration binds: a name, or names by their places in an array or object. -/
def bindingTarget : Clause Tree := do
  match ← need with
  | .word _ => boundName
  | .sign .openBracket => arrayBinding
  | .sign .openBrace => objectBinding
  | _ => unexpected "yield, an identifier, [ or \x7b"

/-- A type after a colon. -/
def annotation? : Clause (List Tree) := do
  if ← eat .colon then return [← inType type] else return []

/-- The tree with a further part, if there is one, and the tokens read since. -/
def withParts (tree : Tree) (parts : List Tree) : Clause Tree := do
  if parts.isEmpty then return tree
  else return .node tree.shape tree.first (max tree.stop (← mark)) (tree.children ++ [.ofParts parts])

/-- A parameter that is no rest parameter. -/
def parameter : Clause Tree := do
  let first ← mark
  let modified ← eatParameterModifier
  let target ← rule .bindingTarget
  let optional ← eat .question
  let target ← withParts target (← annotation?)
  let result ← if ← eat .assign then do
      if optional then report (.token target.first) .optionalWithInitializer
      let value ← assignment
      if (← context).ambient then report (.token first) .initializerWithoutBody
      node .initializedPattern first [target, value]
    else pure target
  if modified then report (.token first) .propertyOutsideConstructor
  return result

/-- A rest parameter, after its dots. -/
def restParameter (first : Nat) (typed : Bool) : Clause Tree := do
  let target ← rule .bindingTarget
  let target ← if typed && (← eat .assign) then do
      let value ← assignment
      report (.token target.first) .restInitializer
      node .initializedPattern target.first [target, value]
    else pure target
  let typing ← annotation?
  node .restPattern first (target :: typing)

/-- The parameters up to a closing parenthesis, each read by `read`, which is told the token that
the parameter starts with. -/
def parametersBy (typed : Bool) (read : Clause Tree) : Clause (List Tree) := do
  let found ← repeating (fun (state : List Tree × Option Nat) => do
    let (found, rest) := state
    if (← isFinish) || (← isSign .closeParen) then return .inr found
    else
      reportAll .restNotLast rest.toList
      let first ← mark
      let (parameter, rest, isRest) ← if ← eat .ellipsis then do
          let parameter ← restParameter first typed
          if typed && (← eat .question) then report (.token ((← mark) - 1)) .restOptional
          pure (parameter, some first, true)
        else do pure (← read, rest, false)
      unless ← isSign .closeParen do
        let comma ← mark
        expect .comma
        if isRest && (← isSign .closeParen) then report (.token comma) .commaAfterRest
      return .inl (parameter :: found, rest)) ([], none)
  return found.reverse

def parameters : Clause (List Tree) := parametersBy true parameter

/-- A parameter of a constructor, which may declare a property at the same time. -/
def constructorParameter : Clause Tree := do
  let access ← eatModifier ["public", "protected", "private"]
  let override ← eatModifier ["override"]
  let readonly ← eatModifier ["readonly"]
  let target ← parameter
  if access || override || readonly then
    if target.isBoundName then return .node .pattern target.first target.stop [target]
    else if target.shape == .initializedPattern then
      return .node .pattern target.first target.stop [target]
    else fail (.token target.first) .invalidParameterProperty
  else return target

def constructorParameters : Clause (List Tree) := parametersBy false constructorParameter

/-- Whether all parameters are plain names. -/
def areSimple (parameters : List Tree) : Bool := parameters.all Tree.isBoundName

def invalidPattern (tree : Tree) : Clause Tree := do
  report (.token tree.first) .notAPattern
  return .node .invalidPattern tree.first tree.stop []

/-- Complains about an expression that strict code may not assign to. -/
def checkTarget (tree : Tree) : Clause Unit := do
  unless tree.isAssignable do report (.token tree.first) .notAssignable

/-- The comma noted before the bracket or brace that closes what token `first` opens. -/
def trailingComma? (first : Nat) : Clause (Option Nat) := do
  return ((← notes).trailingCommas.find? fun c => c.1 == first).map Prod.snd

/-- What stands after the dots in an object expression as the rest that a pattern takes up. -/
def restAsPattern (target : Bool) (first stop : Nat) (inner : Tree) : Clause Tree := do
  if target then
    let inner ← rule (.asPattern true true inner)
    if inner.shape == .initializedPattern then report (.token first) .restInitializer
    return .node .restPattern first stop [inner]
  else
    match inner.shape with
    | .variable name => return .node .restPattern first stop [inner.reshape (.boundName name)]
    | _ =>
      report (.token first) .restWithoutName
      return .node .restPattern first stop [inner.reshape .invalidPattern]

/-- A property of an object expression as one of a pattern; `target` tells that it is assigned to
rather than bound. -/
def propertyAsPattern (target : Bool) (object : Nat) (isLast : Bool) (property : Tree) :
    Clause Tree := do
  let .node shape first stop children := property
  match shape with
  | .shorthand _ => return property
  | .initializedShorthand name => return .node (.initializedProperty name) first stop children
  | .property =>
    match children.getLast? with
    | some value =>
      let value ← rule (.asPattern target true value)
      return .node .property first stop (children.dropLast ++ [value])
    | none => return property
  | .spread =>
    match children.head? with
    | some inner =>
      unless isLast do report (.token first) .restElementNotLast
      reportAll .commaAfterRest (← trailingComma? object).toList
      restAsPattern target first stop inner
    | none => return property
  | _ => fail (.token first) .notAPattern

/-- The properties of an object expression as those of a pattern. -/
def propertiesAsPattern (target : Bool) (object : Nat) : List Tree → Clause (List Tree)
  | [] => return []
  | property :: others => do
    let property ← propertyAsPattern target object others.isEmpty property
    return property :: (← propertiesAsPattern target object others)

/-- An element of an array expression as one of a pattern. -/
def elementAsPattern (target : Bool) (array : Nat) (element : Tree) : Clause Tree := do
  if element.shape == .hole then return element
  else if element.shape == .spread then
    let inner := element.children.headD element
    if inner.shape == .assignment true then report (.token element.first) .restInitializer
    reportAll .commaAfterRest (← trailingComma? array).toList
    let inner ← rule (.asPattern target true inner)
    return .node .restPattern inner.first inner.stop [inner]
  else rule (.asPattern target true element)

/-- The elements of an array expression as those of a pattern. -/
def elementsAsPattern (target : Bool) (array : Nat) : List Tree → Clause (List Tree)
  | [] => return []
  | element :: others => do
    if element.shape == .spread && !others.isEmpty then
      report (.token element.first) .restElementNotLast
      elementsAsPattern target array others
    else
      let pattern ← elementAsPattern target array element
      return pattern :: (← elementsAsPattern target array others)

/-- Whether expressions of a shape may be parts of a pattern that is assigned to, those aside that are
patterns themselves.  Not all of them can be assigned to. -/
def mayBeTarget : Shape → Bool
  | .member | .superMember | .call | .importCall _ | .new _ | .string | .literal | .function
  | .classExpression | .parenthesized | .template | .asType | .optionalMember | .optionalCall
  | .nonNull | .typeAssertion | .satisfiesType | .instantiation => true
  | _ => false

/-- Reads an expression as a pattern whose parts are bound, or (`target`) assigned to.  `element`
tells that it is part of a larger pattern. -/
def asPattern (target element : Bool) (tree : Tree) : Clause Tree := do
  let .node shape first stop children := tree
  match shape with
  | .invalid => return .node .invalidPattern first stop []
  | _ =>
    let structural := shape == .object || shape == .array
    if target && !element then
      unless structural do checkTarget tree
    match shape with
    | .object =>
      return .node .objectPattern first stop (← propertiesAsPattern target first children)
    | .array => return .node .arrayPattern first stop (← elementsAsPattern target first children)
    | .variable name =>
      if target && element && isUnbindable name then report (.token first) .notAssignable
      return tree.reshape (.boundName name)
    | .assignment true =>
      if target && !element then return .node .targetPattern first stop [tree]
      else
        match children with
        | .node (.assigned shape) leftFirst leftStop parts :: value => do
          let left ← rule (.asPattern target true (.node shape leftFirst leftStop parts))
          return .node .initializedPattern first stop (left :: value)
        | children => return .node .initializedPattern first stop children
    | _ =>
      if target && !element then return .node .targetPattern first stop [tree]
      else if target && mayBeTarget shape then
        unless tree.isAssignable do report (.token first) .notAssignable
        return .node .targetPattern first stop [tree]
      else invalidPattern tree

end WebModules.Script.Clause
